import Mathlib.Data.List.Nodup
import Mathlib.Order.Lattice

/-!
# Lists

The first element that fails a test, texts cut at a character that stops a scan, the elements of one key, and the
largest of several numbers.
-/

namespace PinpointAgent.Framework

section Scan

variable {α : Type*}

theorem forall_or_first_not (p : α → Prop) (l : List α) :
    (∀ x ∈ l, p x) ∨ ∃ a x t, l = a ++ x :: t ∧ (∀ y ∈ a, p y) ∧ ¬p x := by
  induction l with
  | nil => exact .inl (fun _ h => absurd h List.not_mem_nil)
  | cons y l ih =>
    by_cases hy : p y
    · rcases ih with hall | ⟨a, x, t, rfl, ha, hx⟩
      · exact .inl (List.forall_mem_cons.mpr ⟨hy, hall⟩)
      · exact .inr ⟨y :: a, x, t, rfl, List.forall_mem_cons.mpr ⟨hy, ha⟩, hx⟩
    · exact .inr ⟨[], y, l, rfl, fun _ h => absurd h List.not_mem_nil, hy⟩

variable {p : α → Bool} {c : α}

theorem takeWhile_append_stop (hstop : p c = false) (text rest : List α) :
    (text ++ c :: rest).takeWhile p = text.takeWhile p := by
  induction text with
  | nil => simp [hstop]
  | cons d text ih => simp [List.takeWhile_cons, ih]

theorem dropWhile_append_stop (hstop : p c = false) (text rest : List α) :
    (text ++ c :: rest).dropWhile p = text.dropWhile p ++ c :: rest := by
  induction text with
  | nil => simp [hstop]
  | cons d text ih =>
    rw [List.cons_append, List.dropWhile_cons, List.dropWhile_cons, ih]
    split <;> rfl

end Scan

section Keys

variable {ι κ ν : Type*} [DecidableEq κ]

theorem lookup_singleton (name key : κ) (value : ν) :
    [(name, value)].lookup key = if key = name then some value else none := by
  rw [List.lookup_cons, List.lookup_nil]
  by_cases h : key = name
  · rw [if_pos h, beq_iff_eq.2 h]
  · rw [if_neg h, beq_false_of_ne h]

theorem filter_key_eq {key : ι → κ} {l : List ι} (hnodup : (l.map key).Nodup) {x : ι} (hx : x ∈ l) :
    l.filter (fun y => decide (key y = key x)) = [x] := by
  obtain ⟨front, back, rfl⟩ := List.append_of_mem hx
  rw [List.map_append, List.map_cons, List.nodup_append, List.nodup_cons] at hnodup
  have hfront : front.filter (fun y => decide (key y = key x)) = [] := by
    rw [List.filter_eq_nil_iff]
    intro y hy
    have hne := hnodup.2.2 (key y) (List.mem_map_of_mem hy) (key x) List.mem_cons_self
    simpa using hne
  have hback : back.filter (fun y => decide (key y = key x)) = [] := by
    rw [List.filter_eq_nil_iff]
    intro y hy
    have hne : key y ≠ key x := fun heq => hnodup.2.1.1 (heq ▸ List.mem_map_of_mem hy)
    simpa using hne
  rw [List.filter_append, List.filter_cons_of_pos (by simp), hfront, hback]
  rfl

end Keys

section Largest

variable {α : Type*} [LinearOrder α] {a b : α}

private theorem foldr_max_of_le (ns : List α) (h : a ≤ b) : ns.foldr max b = max (ns.foldr max a) b := by
  induction ns with
  | nil => exact (max_eq_right h).symm
  | cons n ns ih => rw [List.foldr_cons, List.foldr_cons, ih, max_assoc]

private theorem le_foldr_max (a : α) (ns : List α) : a ≤ ns.foldr max a := by
  induction ns with
  | nil => exact le_rfl
  | cons n ns ih => exact ih.trans (le_max_right _ _)

theorem foldr_max_append (a : α) (ns ms : List α) :
    (ns ++ ms).foldr max a = max (ns.foldr max a) (ms.foldr max a) := by
  rw [List.foldr_append, foldr_max_of_le ns (le_foldr_max a ms)]

end Largest

end PinpointAgent.Framework
