import Mathlib.Data.List.Range

/-!
# Counting what is numbered

How many of the first `n` things have a property, and how that changes when one of them changes.
-/

namespace PinpointAgent.Framework

def census (n : Nat) (p : Nat → Bool) : Nat := (List.range n).countP p

variable {n c : Nat} {p q : Nat → Bool}

theorem census_succ (n : Nat) (p : Nat → Bool) : census (n + 1) p = census n p + (p n).toNat := by
  rw [census, census, List.range_succ, List.countP_append, List.countP_singleton]
  cases p n <;> rfl

private theorem census_congr (h : ∀ k < n, p k = q k) : census n p = census n q := by
  refine List.countP_congr fun k hk => ?_
  rw [h k (List.mem_range.1 hk)]

theorem census_of_ne (hc : c < n) (h : ∀ k, k ≠ c → p k = q k) :
    census n p + (q c).toNat = census n q + (p c).toNat := by
  induction n with
  | zero => exact absurd hc (Nat.not_lt_zero c)
  | succ n ih =>
    rw [census_succ, census_succ]
    by_cases hn : n = c
    · subst hn
      have hsame : census n p = census n q := census_congr fun k hk => h k (Nat.ne_of_lt hk)
      rw [hsame]
      omega
    · have hlt : c < n := by omega
      have hrest := ih hlt
      rw [h n hn]
      omega

theorem census_eq_zero (h : ∀ k < n, p k = false) : census n p = 0 := by
  refine List.countP_eq_zero.2 fun k hk => ?_
  rw [h k (List.mem_range.1 hk)]
  exact Bool.false_ne_true

theorem census_pos (hc : c < n) (hp : p c = true) : 0 < census n p :=
  List.countP_pos_iff.2 ⟨c, List.mem_range.2 hc, hp⟩

end PinpointAgent.Framework
