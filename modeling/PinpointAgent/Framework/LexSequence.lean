import Mathlib.Order.PiLex
import Mathlib.Order.Nat

/-!
# Sequences in lexicographic order

Infinite sequences over a linear order, compared at the first place where they differ. A program that
walks over two sequences side by side looks at one place a turn, so the rules here say what the
comparison of the heads leaves for the tails.
-/

namespace PinpointAgent.Framework

variable {α : Type*} [LinearOrder α]

def LexLT (x y : Nat → α) : Prop := toLex x < toLex y

def tailSeq (x : Nat → α) : Nat → α := fun i => x (i + 1)

namespace LexLT

variable {x y z : Nat → α}

private theorem irrefl (x : Nat → α) : ¬LexLT x x := lt_irrefl (toLex x)

private theorem asymm (h : LexLT x y) : ¬LexLT y x := lt_asymm h

private theorem trichotomy (x y : Nat → α) : LexLT x y ∨ x = y ∨ LexLT y x :=
  lt_trichotomy (toLex x) (toLex y)

private theorem trans (hxy : LexLT x y) (hyz : LexLT y z) : LexLT x z := lt_trans hxy hyz

private theorem iff_head (x y : Nat → α) :
    LexLT x y ↔ x 0 < y 0 ∨ x 0 = y 0 ∧ LexLT (tailSeq x) (tailSeq y) := by
  constructor
  · rintro ⟨i, hbefore, hlt⟩
    cases i with
    | zero => exact .inl hlt
    | succ i =>
      refine .inr ⟨hbefore 0 (Nat.zero_lt_succ i), i, ?_, hlt⟩
      intro j hj
      exact hbefore (j + 1) (Nat.succ_lt_succ hj)
  · rintro (hlt | ⟨hhead, i, hbefore, hlt⟩)
    · exact ⟨0, fun j hj => absurd hj (Nat.not_lt_zero j), hlt⟩
    · refine ⟨i + 1, ?_, hlt⟩
      intro j hj
      cases j with
      | zero => exact hhead
      | succ j => exact hbefore j (Nat.lt_of_succ_lt_succ hj)

end LexLT

open Classical in
noncomputable def lexSign (x y : Nat → α) : Int :=
  if LexLT x y then -1 else if LexLT y x then 1 else 0

variable {x y z : Nat → α}

private theorem lexSign_of_lt (hlt : LexLT x y) : lexSign x y = -1 := if_pos hlt

private theorem lexSign_of_gt (hgt : LexLT y x) : lexSign x y = 1 := by
  rw [lexSign, if_neg hgt.asymm, if_pos hgt]

theorem lexSign_self (x : Nat → α) : lexSign x x = 0 := by
  rw [lexSign, if_neg (LexLT.irrefl x), if_neg (LexLT.irrefl x)]

theorem lexSign_swap (x y : Nat → α) : lexSign x y = -lexSign y x := by
  rcases LexLT.trichotomy x y with hlt | rfl | hgt
  · rw [lexSign_of_lt hlt, lexSign_of_gt hlt]
  · rw [lexSign_self, Int.neg_zero]
  · rw [lexSign_of_gt hgt, lexSign_of_lt hgt, Int.neg_neg]

private theorem lexSign_nonpos_iff (x y : Nat → α) : lexSign x y ≤ 0 ↔ ¬LexLT y x := by
  rcases LexLT.trichotomy x y with hlt | rfl | hgt
  · exact iff_of_true (by rw [lexSign_of_lt hlt]; decide) hlt.asymm
  · exact iff_of_true (by rw [lexSign_self]) (LexLT.irrefl x)
  · exact iff_of_false (by rw [lexSign_of_gt hgt]; decide) (fun hnot => hnot hgt)

theorem lexSign_nonpos_trans (hxy : lexSign x y ≤ 0) (hyz : lexSign y z ≤ 0) :
    lexSign x z ≤ 0 := by
  rw [lexSign_nonpos_iff] at hxy hyz ⊢
  intro hzx
  -- `z` is below `x`, so `y`, which is not above `z`, is below `x` as well
  rcases LexLT.trichotomy y z with hlt | rfl | hgt
  · exact hxy (hlt.trans hzx)
  · exact hxy hzx
  · exact hyz hgt

theorem lexSign_of_head_lt (hlt : x 0 < y 0) : lexSign x y = -1 :=
  lexSign_of_lt ((LexLT.iff_head x y).2 (.inl hlt))

theorem lexSign_of_head_gt (hgt : y 0 < x 0) : lexSign x y = 1 :=
  lexSign_of_gt ((LexLT.iff_head y x).2 (.inl hgt))

theorem lexSign_of_head_eq (heq : x 0 = y 0) :
    lexSign x y = lexSign (tailSeq x) (tailSeq y) := by
  have hlt : LexLT x y ↔ LexLT (tailSeq x) (tailSeq y) := by
    simp [LexLT.iff_head x y, heq]
  have hgt : LexLT y x ↔ LexLT (tailSeq y) (tailSeq x) := by
    simp [LexLT.iff_head y x, heq]
  classical
  exact if_congr hlt rfl (if_congr hgt rfl rfl)

end PinpointAgent.Framework
