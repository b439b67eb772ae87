import Mathlib.Data.List.Basic

/-!
# Maps that keep their keys in order

A map is the list of its entries with increasing keys. Assigning to a key that is there replaces its
value; a new key goes to its place. A list of entries that comes in the order of the map is
inserted by appending it, and a list in any order can be normalised to a map with the same lookups.
-/

namespace PinpointAgent.Framework.SortedMap

variable {κ ν : Type} [LT κ]

def Sorted (m : List (κ × ν)) : Prop := m.Pairwise fun a b => a.1 < b.1

variable [DecidableLT κ] [DecidableEq κ] {m : List (κ × ν)} {key other : κ} {value : ν}

def insert : List (κ × ν) → κ → ν → List (κ × ν)
  | [], key, value => [(key, value)]
  | entry :: m, key, value =>
    if key < entry.1 then (key, value) :: entry :: m
    else if key = entry.1 then (key, value) :: m
    else entry :: insert m key value

theorem eq_or_mem_of_mem_insert {entry : κ × ν} (h : entry ∈ insert m key value) :
    entry = (key, value) ∨ entry ∈ m := by
  induction m with
  | nil => exact .inl (List.mem_singleton.1 h)
  | cons head m ih =>
    rw [insert] at h
    split at h
    · exact List.mem_cons.1 h
    · split at h
      · exact (List.mem_cons.1 h).imp_right (List.mem_cons_of_mem head)
      · obtain rfl | hrest := List.mem_cons.1 h
        · exact .inr List.mem_cons_self
        · exact (ih hrest).imp_right (List.mem_cons_of_mem head)

private theorem lookup_insert_self [BEq κ] [LawfulBEq κ] (m : List (κ × ν)) (key : κ) (value : ν) :
    (insert m key value).lookup key = some value := by
  induction m with
  | nil => exact List.lookup_cons_self
  | cons head m ih =>
    rw [insert]
    split
    · exact List.lookup_cons_self
    · split
      · exact List.lookup_cons_self
      · next hne =>
        rw [List.lookup_cons, beq_eq_false_iff_ne.2 hne]
        exact ih

private theorem lookup_insert_of_ne [BEq κ] [LawfulBEq κ] (h : other ≠ key) :
    (insert m key value).lookup other = m.lookup other := by
  have hne : (other == key) = false := beq_eq_false_iff_ne.2 h
  induction m with
  | nil => rw [insert, List.lookup_cons, hne]
  | cons head m ih =>
    rw [insert]
    split
    · rw [List.lookup_cons, hne]
    · split
      · next heq => rw [List.lookup_cons, List.lookup_cons, hne, ← heq, hne]
      · rw [List.lookup_cons, List.lookup_cons, ih]

theorem insert_of_lt [Std.Asymm (α := κ) (· < ·)] [Std.Irrefl (α := κ) (· < ·)]
    (h : ∀ entry ∈ m, entry.1 < key) : insert m key value = m ++ [(key, value)] := by
  induction m with
  | nil => rfl
  | cons head m ih =>
    have hhead : head.1 < key := h head List.mem_cons_self
    have hne : key ≠ head.1 := fun heq => Std.lt_irrefl (heq ▸ hhead)
    rw [insert, if_neg (Std.not_gt_of_lt hhead), if_neg hne,
      ih fun entry hentry => h entry (List.mem_cons_of_mem _ hentry), List.cons_append]

theorem sorted_insert [Trans (α := κ) (· < ·) (· < ·) (· < ·)] [Std.Trichotomous (α := κ) (· < ·)]
    (h : Sorted m) : Sorted (insert m key value) := by
  induction m with
  | nil => exact List.pairwise_singleton ..
  | cons head m ih =>
    obtain ⟨hhead, hm⟩ := List.pairwise_cons.1 h
    rw [insert]
    split
    · next hlt =>
      refine List.pairwise_cons.2 ⟨fun entry hentry => ?_, h⟩
      obtain rfl | hentry := List.mem_cons.1 hentry
      · exact hlt
      · exact Std.lt_trans hlt (hhead entry hentry)
    · next hnlt =>
      split
      · next heq => exact List.pairwise_cons.2 ⟨fun entry hentry => heq ▸ hhead entry hentry, hm⟩
      · next hne =>
        have hgt : head.1 < key := by
          obtain hlt | heq | hgt := Std.lt_trichotomy key head.1
          · exact absurd hlt hnlt
          · exact absurd heq hne
          · exact hgt
        refine List.pairwise_cons.2 ⟨fun entry hentry => ?_, ih hm⟩
        obtain rfl | hentry := eq_or_mem_of_mem_insert hentry
        · exact hgt
        · exact hhead entry hentry

/-- The map of a list of entries, of which the first one of a key counts. -/
def ofList : List (κ × ν) → List (κ × ν)
  | [] => []
  | entry :: m => insert (ofList m) entry.1 entry.2

theorem lookup_ofList [BEq κ] [LawfulBEq κ] (m : List (κ × ν)) (key : κ) :
    (ofList m).lookup key = m.lookup key := by
  induction m with
  | nil => rfl
  | cons head m ih =>
    rw [ofList]
    by_cases heq : key = head.1
    · rw [heq, lookup_insert_self, List.lookup_cons_self]
    · rw [lookup_insert_of_ne heq, ih, List.lookup_cons, beq_eq_false_iff_ne.2 heq]

theorem sorted_ofList [Trans (α := κ) (· < ·) (· < ·) (· < ·)] [Std.Trichotomous (α := κ) (· < ·)]
    (m : List (κ × ν)) : Sorted (ofList m) := by
  induction m with
  | nil => exact List.Pairwise.nil
  | cons head m ih => exact sorted_insert ih

theorem mem_of_mem_ofList {entry : κ × ν} (h : entry ∈ ofList m) : entry ∈ m := by
  induction m with
  | nil => exact h
  | cons head m ih =>
    obtain rfl | hrest := eq_or_mem_of_mem_insert h
    · exact List.mem_cons_self
    · exact List.mem_cons_of_mem _ (ih hrest)

end PinpointAgent.Framework.SortedMap
