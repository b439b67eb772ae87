import Mathlib.Data.List.Nodup
/-!
# A bitmap with a stack of free slots

An allocator that keeps one bit per slot and a stack of the slots whose bit is clear. The
lemmas say that growing, taking the top of the stack and putting a used slot back keep the
two in step.
-/

namespace PinpointAgent.Framework

/-- One bit per slot, and the free slots, the top of the stack first. -/
structure Slots where
  used : List Bool
  free : List Nat

namespace Slots

/-- Slots `used.length` to `used.length + n - 1` are added and pushed in this order. -/
def grow (s : Slots) (n : Nat) : Slots where
  used := s.used ++ List.replicate n false
  free := (List.range' s.used.length n).reverse ++ s.free

def take (s : Slots) (i : Nat) (rest : List Nat) : Slots := ⟨s.used.set i true, rest⟩

def put (s : Slots) (i : Nat) : Slots := ⟨s.used.set i false, i :: s.free⟩

/-- The stack holds every slot that is not in use, once. -/
structure Exact (s : Slots) : Prop where
  nodup : s.free.Nodup
  mem_free : ∀ i, i ∈ s.free ↔ s.used[i]? = some false
  count : s.free.length + s.used.count true = s.used.length

theorem exact_empty : Exact ⟨[], []⟩ := ⟨List.nodup_nil, by simp, rfl⟩

variable {s : Slots} {i n : Nat} {rest : List Nat}

theorem Exact.lt (h : s.Exact) (hi : i ∈ s.free) : i < s.used.length :=
  (List.getElem?_eq_some_iff.mp ((h.mem_free i).mp hi)).1

theorem Exact.grow (h : s.Exact) (n : Nat) : (s.grow n).Exact := by
  have hcell : ∀ i, i ∈ List.range' s.used.length n ↔ s.used.length ≤ i ∧ i < s.used.length + n := by
    intro i
    rw [List.mem_range'_1]
  constructor
  · refine List.nodup_append.mpr ⟨List.nodup_reverse.mpr List.nodup_range', h.nodup, ?_⟩
    intro i hi j hj heq
    have hlo := ((hcell i).mp (List.mem_reverse.mp hi)).1
    have hlt := h.lt hj
    omega
  · intro i
    simp only [Slots.grow, List.mem_append, List.mem_reverse, hcell, h.mem_free]
    by_cases hi : i < s.used.length
    · rw [List.getElem?_append_left hi]
      constructor
      · rintro (⟨hlo, -⟩ | hfree)
        · omega
        · exact hfree
      · exact .inr
    · have hnone : s.used[i]? = none := List.getElem?_eq_none (by omega)
      rw [List.getElem?_append_right (by omega), List.getElem?_replicate, hnone]
      constructor
      · rintro (⟨hlo, hhi⟩ | hfree)
        · rw [if_pos (by omega)]
        · cases hfree
      · intro hfree
        split at hfree
        · exact .inl ⟨by omega, by omega⟩
        · cases hfree
  · simp only [Slots.grow, List.length_append, List.length_reverse, List.length_range',
      List.count_append, List.count_replicate, List.length_replicate]
    have := h.count
    simp only [beq_iff_eq, Bool.false_eq_true, if_false]
    omega

theorem Exact.take (h : s.Exact) (hfree : s.free = i :: rest) : (s.take i rest).Exact := by
  have hmem : i ∈ s.free := by rw [hfree]; exact List.mem_cons_self ..
  obtain ⟨hlt, hbit⟩ := List.getElem?_eq_some_iff.mp ((h.mem_free i).mp hmem)
  have hnodup := h.nodup
  rw [hfree, List.nodup_cons] at hnodup
  constructor
  · exact hnodup.2
  · intro j
    by_cases hj : j = i
    · rw [hj]
      simp [Slots.take, hlt, hnodup.1]
    · have hiff := h.mem_free j
      rw [hfree, List.mem_cons] at hiff
      simpa [Slots.take, List.getElem?_set_ne (Ne.symm hj), hj] using hiff
  · have hcount := h.count
    simp only [Slots.take, List.length_set, List.count_set hlt, hbit]
    rw [hfree, List.length_cons] at hcount
    simp
    omega

theorem Exact.put (h : s.Exact) (hused : s.used[i]? = some true) : (s.put i).Exact := by
  obtain ⟨hlt, hbit⟩ := List.getElem?_eq_some_iff.mp hused
  have hnot : i ∉ s.free := by
    rw [h.mem_free, hused]
    simp
  constructor
  · exact List.nodup_cons.mpr ⟨hnot, h.nodup⟩
  · intro j
    by_cases hj : j = i
    · rw [hj]
      simp [Slots.put, hlt]
    · simpa [Slots.put, List.getElem?_set_ne (Ne.symm hj), hj] using h.mem_free j
  · have hcount := h.count
    have hpos : 0 < s.used.count true := List.count_pos_iff.mpr (hbit ▸ List.getElem_mem hlt)
    simp only [Slots.put, List.length_set, List.length_cons, List.count_set hlt, hbit]
    simp
    omega

end Slots

end PinpointAgent.Framework
