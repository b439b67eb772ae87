import Mathlib.Data.List.Basic

/-!
# Dictionaries that keep the order of insertion

A dictionary is the list of its entries, oldest first. Assigning to a key that is there keeps its
place; a new key goes to the end. What is put in under new keys comes out as it was, and taking those
keys out again leaves the dictionary as it was.
-/

namespace PinpointAgent.Framework.Dict

variable {κ ν : Type} [DecidableEq κ] {d : List (κ × ν)} {key other : κ} {value : ν}

/-- `d[key] = value` for a key that is there. -/
def replace (d : List (κ × ν)) (key : κ) (value : ν) : List (κ × ν) :=
  d.map fun entry => if entry.1 = key then (key, value) else entry

def setItem (d : List (κ × ν)) (key : κ) (value : ν) : List (κ × ν) :=
  if (d.lookup key).isSome then replace d key value else d ++ [(key, value)]

def update (d e : List (κ × ν)) : List (κ × ν) :=
  e.foldl (fun d entry => setItem d entry.1 entry.2) d

theorem mem_of_lookup (h : d.lookup key = some value) : (key, value) ∈ d := by
  obtain ⟨front, back, rfl, -⟩ := List.lookup_eq_some_iff.1 h
  exact List.mem_append_right _ List.mem_cons_self

private theorem lookup_replace_self (h : (d.lookup key).isSome) : (replace d key value).lookup key = some value := by
  induction d with
  | nil => exact absurd h Bool.false_ne_true
  | cons entry d ih =>
    obtain ⟨head, old⟩ := entry
    rw [replace, List.map_cons]
    by_cases heq : head = key
    · rw [if_pos heq, List.lookup_cons_self]
    · have hne : (key == head) = false := beq_eq_false_iff_ne.2 (Ne.symm heq)
      rw [List.lookup_cons, hne] at h
      rw [if_neg heq, List.lookup_cons, hne]
      exact ih h

private theorem lookup_replace_of_ne (h : other ≠ key) : (replace d key value).lookup other = d.lookup other := by
  induction d with
  | nil => rfl
  | cons entry d ih =>
    obtain ⟨head, old⟩ := entry
    rw [replace, List.map_cons, List.lookup_cons]
    by_cases heq : head = key
    · have hne : (other == key) = false := beq_eq_false_iff_ne.2 h
      rw [if_pos heq, List.lookup_cons, hne, heq, hne]
      exact ih
    · rw [if_neg heq, List.lookup_cons]
      cases other == head with
      | true => rfl
      | false => exact ih

theorem lookup_append_of_none (e : List (κ × ν)) (h : d.lookup key = none) :
    (d ++ e).lookup key = e.lookup key := by
  rw [List.lookup_append, h, Option.none_or]

theorem lookup_setItem_self (d : List (κ × ν)) (key : κ) (value : ν) :
    (setItem d key value).lookup key = some value := by
  rw [setItem]
  split
  · exact lookup_replace_self ‹_›
  · have hnone : d.lookup key = none := Option.not_isSome_iff_eq_none.1 ‹_›
    rw [lookup_append_of_none _ hnone, List.lookup_cons_self]

theorem lookup_setItem_of_ne (h : other ≠ key) : (setItem d key value).lookup other = d.lookup other := by
  rw [setItem]
  split
  · exact lookup_replace_of_ne h
  · have hne : (other == key) = false := beq_eq_false_iff_ne.2 h
    rw [List.lookup_append, List.lookup_cons, hne, List.lookup_nil, Option.or_none]

theorem lookup_update {e : List (κ × ν)} (hnodup : (e.map Prod.fst).Nodup) (d : List (κ × ν)) (key : κ) :
    (update d e).lookup key = (e.lookup key).or (d.lookup key) := by
  induction e generalizing d with
  | nil => rfl
  | cons entry e ih =>
    obtain ⟨head, value⟩ := entry
    obtain ⟨hnotin, hrest⟩ := List.nodup_cons.1 hnodup
    rw [update, List.foldl_cons, ← update, ih hrest, List.lookup_cons]
    by_cases heq : key = head
    · subst heq
      have hnone : e.lookup key = none := by
        rw [List.lookup_eq_none_iff]
        intro entry hentry
        have hmem : entry.1 ∈ e.map Prod.fst := List.mem_map_of_mem hentry
        have hne : key ≠ entry.1 := fun hkey => hnotin (hkey ▸ hmem)
        simpa using hne
      rw [hnone, lookup_setItem_self, beq_self_eq_true]
      rfl
    · rw [lookup_setItem_of_ne heq, beq_false_of_ne heq]

theorem update_of_fresh {e : List (κ × ν)} (hnodup : (e.map Prod.fst).Nodup)
    (hfresh : ∀ key ∈ e.map Prod.fst, d.lookup key = none) : update d e = d ++ e := by
  induction e generalizing d with
  | nil => exact (List.append_nil d).symm
  | cons entry e ih =>
    obtain ⟨hnotin, hrest⟩ := List.nodup_cons.1 hnodup
    have hnone : d.lookup entry.1 = none := hfresh entry.1 List.mem_cons_self
    have hset : setItem d entry.1 entry.2 = d ++ [entry] := by
      rw [setItem, hnone]
      rfl
    have hstill : ∀ key ∈ e.map Prod.fst, (d ++ [entry]).lookup key = none := by
      intro key hkey
      have hne : key ≠ entry.1 := fun heq => hnotin (heq ▸ hkey)
      rw [lookup_append_of_none [entry] (hfresh key (List.mem_cons_of_mem _ hkey))]
      simpa using hne
    rw [update, List.foldl_cons, hset]
    exact (ih hrest hstill).trans (List.append_assoc ..)

theorem filter_append_of_fresh {keys : List κ} {e : List (κ × ν)} (hkeys : ∀ entry ∈ e, entry.1 ∈ keys)
    (hfresh : ∀ key ∈ keys, d.lookup key = none) :
    (d ++ e).filter (fun entry => !keys.contains entry.1) = d := by
  have hall : e.filter (fun entry => !keys.contains entry.1) = [] := by
    rw [List.filter_eq_nil_iff]
    intro entry hentry
    simp [hkeys entry hentry]
  have hnone : d.filter (fun entry => !keys.contains entry.1) = d := by
    rw [List.filter_eq_self]
    intro entry hentry
    have hnotin : entry.1 ∉ keys := by
      intro hin
      have := List.lookup_eq_none_iff.1 (hfresh entry.1 hin) entry hentry
      simp at this
    simpa using hnotin
  rw [List.filter_append, hall, hnone, List.append_nil]

end PinpointAgent.Framework.Dict
