import Mathlib.Logic.Function.Basic
/-!
# Interleaved steps

A concurrent component is given by a step function: an event names the thread and the atomic
section it executes next, and the step is `none` when that section cannot be executed in the
current state. A schedule is a list of events; it is arbitrary, so a fact about every
schedule is a fact about every interleaving.

Some components keep their promises only for schedules that avoid certain races. Such a
condition is a predicate on an event and the state it is executed in.
-/

namespace PinpointAgent.Framework

universe u v

variable {σ : Type u} {ε : Type v}

/-- The state after a schedule, `none` when one of its events is not possible. -/
def exec (step : σ → ε → Option σ) : σ → List ε → Option σ
  | s, [] => some s
  | s, e :: es => (step s e).bind fun t => exec step t es

/-- Every event of the schedule is executed in a state in which `cond` allows it. -/
def Along (step : σ → ε → Option σ) (cond : σ → ε → Prop) : σ → List ε → Prop
  | _, [] => True
  | s, e :: es => cond s e ∧ ∀ t, step s e = some t → Along step cond t es

variable {step : σ → ε → Option σ} {cond : σ → ε → Prop} {s t : σ} {es : List ε}

instance decidableAlong [h : ∀ s e, Decidable (cond s e)] :
    (s : σ) → (es : List ε) → Decidable (Along step cond s es)
  | _, [] => inferInstanceAs (Decidable True)
  | s, e :: es =>
    match hstep : step s e with
    | none => decidable_of_iff (cond s e) (by simp [Along, hstep])
    | some t =>
      have := decidableAlong t es
      decidable_of_iff (cond s e ∧ Along step cond t es) (by simp [Along, hstep])

/-- `P` holds in every state that the schedule goes through, the first and the last included. -/
def Throughout (step : σ → ε → Option σ) (P : σ → Prop) : σ → List ε → Prop
  | s, [] => P s
  | s, e :: es => P s ∧ ∀ t, step s e = some t → Throughout step P t es

/-- Two properties that agree as long as an invariant holds, which the second one keeps alive. -/
theorem throughout_congr {I P Q : σ → Prop} (hagree : ∀ s, I s → (P s ↔ Q s))
    (hstep : ∀ s e t, I s → Q s → step s e = some t → I t) (hs : I s) :
    Throughout step P s es ↔ Throughout step Q s es := by
  induction es generalizing s with
  | nil => exact hagree s hs
  | cons e es ih =>
    rw [Throughout, Throughout, hagree s hs]
    refine and_congr_right fun hq => ?_
    exact forall_congr' fun t => imp_congr_right fun ht => ih (hstep s e t hs hq ht)

/-- A property that every allowed step keeps holds after every allowed schedule. -/
theorem Along.invariant {P : σ → Prop}
    (hstep : ∀ s e t, P s → cond s e → step s e = some t → P t)
    (hs : P s) (hcond : Along step cond s es) (hrun : exec step s es = some t) : P t := by
  induction es generalizing s with
  | nil => exact Option.some.inj hrun ▸ hs
  | cons e es ih =>
    obtain ⟨u, hu, hrest⟩ := Option.bind_eq_some_iff.mp hrun
    exact ih (hstep s e u hs hcond.1 hu) (hcond.2 u hu) hrest

theorem exec_invariant {P : σ → Prop}
    (hstep : ∀ s e t, P s → step s e = some t → P t)
    (hs : P s) (hrun : exec step s es = some t) : P t := by
  induction es generalizing s with
  | nil => exact Option.some.inj hrun ▸ hs
  | cons e es ih =>
    obtain ⟨u, hu, hrest⟩ := Option.bind_eq_some_iff.mp hrun
    exact ih (hstep s e u hs hu) hrest

/-- Events that each lower a rank, which no other event raises, are at most as many as the rank. -/
theorem countP_le_rank {P : σ → Prop} (allowed : ε → Prop) {counts : ε → Bool} (rank : σ → Nat)
    (hstep : ∀ s e t, P s → allowed e → step s e = some t →
      P t ∧ rank t + (if counts e then 1 else 0) ≤ rank s)
    (hs : P s) (hall : ∀ e ∈ es, allowed e) (hrun : exec step s es = some t) :
    es.countP counts + rank t ≤ rank s := by
  induction es generalizing s with
  | nil =>
    cases hrun
    simp only [List.countP_nil, Nat.zero_add, Nat.le_refl]
  | cons e es ih =>
    obtain ⟨u, hu, hrest⟩ := Option.bind_eq_some_iff.mp hrun
    obtain ⟨hP, hrank⟩ := hstep s e u hs (hall e List.mem_cons_self) hu
    have hlater := ih hP (fun e' he' => hall e' (List.mem_cons_of_mem e he')) hrest
    rw [List.countP_cons]
    omega

end PinpointAgent.Framework
