import Mathlib.Data.List.Nodup
import Mathlib.Logic.Function.Basic

/-!
# Resources lent to threads

A stack of resources from which threads take one, or make one if the stack is empty, and to which they give
it back. A resource is known by the number of those made before it. A thread that gives up in between takes
its resource with it. At any time every resource is in one place: on the stack, with one thread, or lost.
-/

namespace PinpointAgent.Framework

variable {ι : Type*}

structure Lease (ι : Type*) where
  made : Nat
  stack : List Nat
  held : ι → Option Nat
  lost : List Nat

namespace Lease

def init (made : Nat) (stack : List Nat) : Lease ι := ⟨made, stack, fun _ => none, []⟩

structure Exclusive (l : Lease ι) : Prop where
  stack_nodup : l.stack.Nodup
  lost_nodup : l.lost.Nodup
  held_unique : ∀ i j k, l.held i = some k → l.held j = some k → i = j
  held_stack : ∀ i k, l.held i = some k → k ∉ l.stack ∧ k ∉ l.lost
  stack_lost : ∀ k ∈ l.stack, k ∉ l.lost
  place_iff : ∀ k, k < l.made ↔ k ∈ l.stack ∨ (∃ i, l.held i = some k) ∨ k ∈ l.lost

variable {l : Lease ι} {i j : ι} {k : Nat}

variable [DecidableEq ι]

def take (l : Lease ι) (i : ι) : Nat × Lease ι :=
  match l.stack with
  | [] => (l.made, { l with made := l.made + 1, held := Function.update l.held i (some l.made) })
  | k :: stack => (k, { l with stack, held := Function.update l.held i (some k) })

def put (l : Lease ι) (i : ι) (k : Nat) : Lease ι :=
  { l with stack := k :: l.stack, held := Function.update l.held i none }

def lose (l : Lease ι) (i : ι) (k : Nat) : Lease ι :=
  { l with lost := k :: l.lost, held := Function.update l.held i none }

theorem held_update {r : Option Nat} (hj : Function.update l.held i r j = some k) :
    j = i ∧ r = some k ∨ j ≠ i ∧ l.held j = some k := by
  by_cases hji : j = i
  · subst hji
    rw [Function.update_self] at hj
    exact .inl ⟨rfl, hj⟩
  · rw [Function.update_of_ne hji] at hj
    exact .inr ⟨hji, hj⟩

private theorem exists_update_iff {r : Option Nat} :
    (∃ j, Function.update l.held i r j = some k) ↔ r = some k ∨ ∃ j, j ≠ i ∧ l.held j = some k := by
  constructor
  · rintro ⟨j, hj⟩
    obtain ⟨-, hr⟩ | hold := held_update hj
    · exact .inl hr
    · exact .inr ⟨j, hold⟩
  · rintro (hr | ⟨j, hne, hj⟩)
    · exact ⟨i, by rw [Function.update_self, hr]⟩
    · exact ⟨j, by rw [Function.update_of_ne hne, hj]⟩

private theorem Exclusive.grant {made : Nat} {stack : List Nat} (h : l.Exclusive) (hi : l.held i = none)
    (hfree : ∀ j, l.held j ≠ some k) (hlost : k ∉ l.lost) (hstack : (k :: stack).Nodup) (hsub : ∀ r ∈ stack, r ∈ l.stack)
    (hmade : ∀ r, r < made ↔ r = k ∨ r ∈ stack ∨ (∃ j, l.held j = some r) ∨ r ∈ l.lost) :
    Exclusive { l with made, stack, held := Function.update l.held i (some k) } where
  stack_nodup := (List.nodup_cons.1 hstack).2
  lost_nodup := h.lost_nodup
  held_unique a b r ha hb := by
    obtain ⟨hai, hr⟩ | ⟨-, ha'⟩ := held_update ha
    · obtain ⟨hbi, -⟩ | ⟨-, hb'⟩ := held_update hb
      · exact hai.trans hbi.symm
      · exact absurd (hr ▸ hb') (hfree b)
    · obtain ⟨-, hr⟩ | ⟨-, hb'⟩ := held_update hb
      · exact absurd (hr ▸ ha') (hfree a)
      · exact h.held_unique a b r ha' hb'
  held_stack a r ha := by
    obtain ⟨-, hr⟩ | ⟨-, ha⟩ := held_update ha
    · cases hr
      exact ⟨(List.nodup_cons.1 hstack).1, hlost⟩
    · obtain ⟨hnot, hnotLost⟩ := h.held_stack a r ha
      exact ⟨fun hr => hnot (hsub r hr), hnotLost⟩
  stack_lost r hr := h.stack_lost r (hsub r hr)
  place_iff r := by
    have hothers : (∃ j, j ≠ i ∧ l.held j = some r) ↔ ∃ j, l.held j = some r := by
      refine ⟨fun ⟨j, _, hj⟩ => ⟨j, hj⟩, fun ⟨j, hj⟩ => ⟨j, fun hji => ?_, hj⟩⟩
      rw [hji, hi] at hj
      cases hj
    show r < made ↔ r ∈ stack ∨ (∃ j, Function.update l.held i (some k) j = some r) ∨ r ∈ l.lost
    rw [exists_update_iff, hothers, hmade r, Option.some.injEq, eq_comm]
    tauto

theorem Exclusive.take (h : l.Exclusive) (hi : l.held i = none) :
    (l.take i).2.Exclusive ∧ (l.take i).2.held i = some (l.take i).1 := by
  cases hstack : l.stack with
  | nil =>
    have hnew (r : Nat) (hr : r ∈ l.stack ∨ (∃ j, l.held j = some r) ∨ r ∈ l.lost) : r ≠ l.made :=
      Nat.ne_of_lt ((h.place_iff r).2 hr)
    have htake : l.take i =
        (l.made, { l with made := l.made + 1, stack := [], held := Function.update l.held i (some l.made) }) := by
      rw [Lease.take, hstack]
    rw [htake]
    refine ⟨h.grant hi ?_ ?_ (List.nodup_singleton _) (fun r hr => absurd hr List.not_mem_nil) fun r => ?_,
      Function.update_self ..⟩
    · exact fun j hj => hnew _ (.inr (.inl ⟨j, hj⟩)) rfl
    · exact fun hlost => hnew _ (.inr (.inr hlost)) rfl
    · rw [Nat.lt_succ_iff_lt_or_eq, h.place_iff r, hstack]
      tauto
  | cons k stack =>
    have hk : k ∈ l.stack := hstack ▸ List.mem_cons_self
    have htake : l.take i = (k, { l with stack, held := Function.update l.held i (some k) }) := by
      rw [Lease.take, hstack]
    rw [htake]
    refine ⟨h.grant hi (fun j hj => (h.held_stack j k hj).1 hk) (h.stack_lost k hk) (hstack ▸ h.stack_nodup)
      (fun r hr => hstack ▸ List.mem_cons_of_mem k hr) fun r => ?_, Function.update_self ..⟩
    rw [h.place_iff r, hstack, List.mem_cons, or_assoc]

theorem Exclusive.release {stack lost : List Nat} (h : l.Exclusive) (hi : l.held i = some k)
    (hstack : stack.Nodup) (hlost : lost.Nodup) (hdisjoint : ∀ r ∈ stack, r ∉ lost)
    (hmem : ∀ r, r ∈ stack ∨ r ∈ lost ↔ r = k ∨ r ∈ l.stack ∨ r ∈ l.lost) :
    Exclusive { l with stack, lost, held := Function.update l.held i none } where
  stack_nodup := hstack
  lost_nodup := hlost
  held_unique a b r ha hb := by
    obtain ⟨-, hr⟩ | ⟨-, ha⟩ := held_update ha
    · cases hr
    · obtain ⟨-, hr⟩ | ⟨-, hb⟩ := held_update hb
      · cases hr
      · exact h.held_unique a b r ha hb
  held_stack a r ha := by
    obtain ⟨-, hr⟩ | ⟨hne, ha⟩ := held_update ha
    · cases hr
    · obtain ⟨hnot, hnotLost⟩ := h.held_stack a r ha
      have hrk : r ≠ k := fun hrk => hne (h.held_unique a i k (hrk ▸ ha) hi)
      have hnone : ¬(r ∈ stack ∨ r ∈ lost) := by
        rw [hmem]
        exact fun hr => hr.elim hrk (fun hr => hr.elim hnot hnotLost)
      exact not_or.1 hnone
  stack_lost := hdisjoint
  place_iff r := by
    have hothers : (∃ j, j ≠ i ∧ l.held j = some r) ↔ (∃ j, l.held j = some r) ∧ r ≠ k := by
      constructor
      · rintro ⟨j, hne, hj⟩
        exact ⟨⟨j, hj⟩, fun hrk => hne (h.held_unique j i k (hrk ▸ hj) hi)⟩
      · rintro ⟨⟨j, hj⟩, hrk⟩
        refine ⟨j, fun hji => hrk ?_, hj⟩
        rw [hji, hi] at hj
        exact (Option.some.inj hj).symm
    have hheld : r = k → ∃ j, l.held j = some r := fun hrk => ⟨i, hrk ▸ hi⟩
    have hplace := hmem r
    show r < l.made ↔ r ∈ stack ∨ (∃ j, Function.update l.held i none j = some r) ∨ r ∈ lost
    rw [exists_update_iff, hothers, h.place_iff r]
    simp only [reduceCtorEq, false_or]
    tauto

theorem Exclusive.put (h : l.Exclusive) (hi : l.held i = some k) : (l.put i k).Exclusive := by
  obtain ⟨hnot, hlost⟩ := h.held_stack i k hi
  refine h.release hi (List.nodup_cons.2 ⟨hnot, h.stack_nodup⟩) h.lost_nodup ?_ fun r => ?_
  · intro r hr
    obtain rfl | hr := List.mem_cons.1 hr
    · exact hlost
    · exact h.stack_lost r hr
  · rw [List.mem_cons, or_assoc]

theorem Exclusive.lose (h : l.Exclusive) (hi : l.held i = some k) : (l.lose i k).Exclusive := by
  obtain ⟨hnot, hlost⟩ := h.held_stack i k hi
  refine h.release hi h.stack_nodup (List.nodup_cons.2 ⟨hlost, h.lost_nodup⟩) ?_ fun r => ?_
  · intro r hr hrlost
    obtain rfl | hrlost := List.mem_cons.1 hrlost
    · exact hnot hr
    · exact h.stack_lost r hr hrlost
  · rw [List.mem_cons, or_left_comm]

end Lease

end PinpointAgent.Framework
