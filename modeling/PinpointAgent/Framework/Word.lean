import Mathlib.Data.Int.Order.Lemmas
import Mathlib.Tactic.Ring

/-!
# Fixed-width machine words

Unsigned words of width `w` are naturals below `2 ^ w`; the operations reduce their result.
A signed word is the two's complement reading of an integer. The lemmas say when an operation
does not wrap, so that a proof can leave the modular arithmetic at once.
-/

namespace PinpointAgent.Framework

@[irreducible] def wordAdd (w a b : Nat) : Nat := (a + b) % 2 ^ w

/-- Unsigned subtraction, which borrows from `2 ^ w` when `b` is the larger operand. -/
@[irreducible] def wordSub (w a b : Nat) : Nat := (a + (2 ^ w - b % 2 ^ w)) % 2 ^ w

@[irreducible] def toUnsigned (w a : Nat) : Nat := a % 2 ^ w

@[irreducible] def toSigned (w : Nat) (a : Int) : Int := (a + 2 ^ (w - 1)) % 2 ^ w - 2 ^ (w - 1)

theorem toUnsigned_32 (a : Nat) : toUnsigned 32 a = a % 4294967296 := by
  rw [toUnsigned]
  norm_num

theorem wordAdd_of_lt {w a b : Nat} (h : a + b < 2 ^ w) : wordAdd w a b = a + b := by
  rw [wordAdd, Nat.mod_eq_of_lt h]

theorem wordAdd_32 (a b : Nat) : wordAdd 32 a b = (a + b) % 4294967296 := by
  rw [wordAdd]
  norm_num

theorem wordSub_of_le {w a b : Nat} (hba : b ≤ a) (ha : a < 2 ^ w) :
    wordSub w a b = a - b := by
  have hb : b < 2 ^ w := lt_of_le_of_lt hba ha
  rw [wordSub, Nat.mod_eq_of_lt hb]
  have hsplit : a + (2 ^ w - b) = (a - b) + 2 ^ w := by omega
  rw [hsplit, Nat.add_mod_right]
  exact Nat.mod_eq_of_lt (by omega)

theorem wordSub_of_lt {w a b : Nat} (hab : a < b) (hb : b < 2 ^ w) :
    wordSub w a b = 2 ^ w - (b - a) := by
  rw [wordSub, Nat.mod_eq_of_lt hb]
  have hsplit : a + (2 ^ w - b) = 2 ^ w - (b - a) := by omega
  rw [hsplit]
  exact Nat.mod_eq_of_lt (by omega)

theorem toSigned_of_range {w : Nat} {a : Int} (hw : 0 < w) (hlo : -2 ^ (w - 1) ≤ a)
    (hhi : a < 2 ^ (w - 1)) : toSigned w a = a := by
  have hpow : (2 : Int) ^ w = 2 ^ (w - 1) + 2 ^ (w - 1) := by
    obtain ⟨k, rfl⟩ : ∃ k, w = k + 1 := ⟨w - 1, by omega⟩
    rw [pow_succ, Nat.add_sub_cancel]
    ring
  rw [toSigned, Int.emod_eq_of_lt (by omega) (by omega)]
  omega

theorem toSigned_32 (a : Int) : toSigned 32 a = (a + 2147483648) % 4294967296 - 2147483648 := by
  simp [toSigned]

theorem toSigned_32_succ (n : Int) : toSigned 32 (toSigned 32 n + 1) = toSigned 32 (n + 1) := by
  simp only [toSigned_32]
  omega

theorem toSigned_32_eq {a : Int} (hlo : -2147483648 ≤ a) (hhi : a < 2147483648) :
    toSigned 32 a = a := by
  rw [toSigned_32]
  omega

theorem toSigned_32_natCast {n : Nat} (h : n < 2147483648) : toSigned 32 (n : Int) = n :=
  toSigned_32_eq (by omega) (by omega)

theorem toSigned_32_wrap {a : Int} (hlo : 2147483648 ≤ a) (hhi : a < 4294967296) :
    toSigned 32 a = a - 4294967296 := by
  rw [toSigned_32]
  omega

theorem toSigned_32_lt (a : Int) : toSigned 32 a < 2147483648 := by
  rw [toSigned_32]
  omega

theorem toSigned_32_le {a : Int} (h : 0 ≤ a) : toSigned 32 a ≤ a := by
  rw [toSigned_32]
  omega

theorem lt_of_toSigned_32_nonneg {a : Int} (hhi : a < 4294967296) (h : 0 ≤ toSigned 32 a) :
    a < 2147483648 := by
  rw [toSigned_32] at h
  omega

theorem toSigned_32_mod (a : Int) : toSigned 32 a % 4294967296 = a % 4294967296 := by
  rw [toSigned_32]
  omega

theorem toSigned_64_wordSub {a b : Nat} (ha : a < 4611686018427387904)
    (hb : b < 4611686018427387904) : toSigned 64 (wordSub 64 a b) = (a : Int) - b := by
  by_cases hle : b ≤ a
  · rw [wordSub_of_le hle (by norm_num; omega), toSigned]
    norm_num
    omega
  · rw [wordSub_of_lt (by omega) (by norm_num; omega), toSigned]
    norm_num
    omega

end PinpointAgent.Framework
