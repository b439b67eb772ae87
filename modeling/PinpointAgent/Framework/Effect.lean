import Mathlib.Order.Defs.Unbundled
/-!
# Computations that may throw and keep their state

`EStateM` is a computation that ends in a value or an exception and in both cases
leaves a state behind, which is how an exception unwinds through an object whose fields
were already written. `Moves R c` says that `c` takes every state to one related to it
by `R`, however it ends; for a reflexive and transitive `R` it is proved one primitive
at a time. `Frames view` (`view s' = view s`) and `Preserves I` (`I s → I s'`) are the two that
come up, each with the rules for it.
-/

namespace PinpointAgent.Framework

variable {ε σ α β : Type}

/-- The state a computation leaves behind, whether it returned or threw. -/
def finalState (c : EStateM ε σ α) (s : σ) : σ :=
  match c s with
  | .ok _ s' => s'
  | .error _ s' => s'

theorem finalState_of_ok {c : EStateM ε σ α} {s s' : σ} {a : α} (h : c s = .ok a s') :
    finalState c s = s' := by
  simp only [finalState, h]

theorem finalState_of_error {c : EStateM ε σ α} {s s' : σ} {e : ε} (h : c s = .error e s') :
    finalState c s = s' := by
  simp only [finalState, h]

theorem bind_of_ok {c : EStateM ε σ α} {s s' : σ} {a : α} (k : α → EStateM ε σ β)
    (h : c s = .ok a s') : (c >>= k) s = k a s' := by
  simp only [bind, EStateM.bind, h]

theorem bind_of_error {c : EStateM ε σ α} {s s' : σ} {e : ε} (k : α → EStateM ε σ β)
    (h : c s = .error e s') : (c >>= k) s = .error e s' := by
  simp only [bind, EStateM.bind, h]

theorem bind_eq_ok {c : EStateM ε σ α} {k : α → EStateM ε σ β} {s s'' : σ} {b : β}
    (h : (c >>= k) s = .ok b s'') : ∃ a s', c s = .ok a s' ∧ k a s' = .ok b s'' := by
  cases hc : c s with
  | ok a s' => exact ⟨a, s', rfl, bind_of_ok k hc ▸ h⟩
  | error e s' =>
    rw [bind_of_error k hc] at h
    cases h

theorem finalState_bind_of_ok {c : EStateM ε σ α} {s s' : σ} {a : α} (k : α → EStateM ε σ β)
    (h : c s = .ok a s') : finalState (c >>= k) s = finalState (k a) s' := by
  simp only [finalState, bind_of_ok k h]

theorem finalState_bind_pure (c : EStateM ε σ α) (b : β) (s : σ) :
    finalState (c >>= fun _ => pure b) s = finalState c s := by
  cases h : c s with
  | ok a s' =>
    rw [finalState_bind_of_ok _ h, finalState_of_ok h]
    rfl
  | error e s' => rw [finalState_of_error (bind_of_error _ h), finalState_of_error h]

/-- Every run of `c`, returning or throwing, goes from a state to an `R`-related one. -/
def Moves (R : σ → σ → Prop) (c : EStateM ε σ α) : Prop := ∀ s, R s (finalState c s)

namespace Moves

variable {R : σ → σ → Prop}

theorem modify {f : σ → σ} (h : ∀ s, R s (f s)) : Moves R (modify f : EStateM ε σ PUnit) := by
  intro s
  exact h s

theorem bind (htrans : ∀ s t u, R s t → R t u → R s u) {c : EStateM ε σ α}
    {k : α → EStateM ε σ β} (hc : Moves R c) (hk : ∀ a, Moves R (k a)) : Moves R (c >>= k) := by
  intro s
  have hstart := hc s
  cases h : c s with
  | error e t =>
    rw [finalState_of_error h] at hstart
    rw [finalState_of_error (bind_of_error k h)]
    exact hstart
  | ok a t =>
    rw [finalState_of_ok h] at hstart
    have hrest := hk a t
    rw [finalState_bind_of_ok k h]
    exact htrans s t _ hstart hrest

end Moves

/-- From every state `c` returns, with a value that has `P`. -/
def Returns (c : EStateM ε σ α) (P : α → Prop) : Prop := ∀ s, ∃ a s', c s = .ok a s' ∧ P a

namespace Returns

variable {P : α → Prop} {Q : β → Prop}

theorem pure {a : α} (h : P a) : Returns (pure a : EStateM ε σ α) P := fun s => ⟨a, s, rfl, h⟩

theorem bind {c : EStateM ε σ α} {k : α → EStateM ε σ β} (hc : Returns c P) (hk : ∀ a, P a → Returns (k a) Q) :
    Returns (c >>= k) Q := by
  intro s
  obtain ⟨a, s', hrun, ha⟩ := hc s
  obtain ⟨b, s'', hrest, hb⟩ := hk a ha s'
  exact ⟨b, s'', (bind_of_ok k hrun).trans hrest, hb⟩

end Returns

/-- `c` leaves the part of the state that `view` shows as it found it. -/
abbrev Frames (view : σ → β) (c : EStateM ε σ α) : Prop := Moves (fun s t => view t = view s) c

namespace Frames

variable {γ : Type} {view : σ → γ}

theorem pure (a : α) : Frames view (pure a : EStateM ε σ α) := fun _ => rfl

theorem throw (e : ε) : Frames view (throw e : EStateM ε σ α) := fun _ => rfl

theorem get : Frames view (get : EStateM ε σ σ) := fun _ => rfl

theorem bind {c : EStateM ε σ α} {k : α → EStateM ε σ β} (hc : Frames view c) (hk : ∀ a, Frames view (k a)) :
    Frames view (c >>= k) :=
  Moves.bind (fun _ _ _ h h' => h'.trans h) hc hk

end Frames

/-- However `c` ends, it keeps the invariant `I`. -/
abbrev Preserves (I : σ → Prop) (c : EStateM ε σ α) : Prop := Moves (fun s t => I s → I t) c

namespace Preserves

variable {I : σ → Prop}

theorem pure (a : α) : Preserves I (pure a : EStateM ε σ α) := fun _ h => h

theorem throw (e : ε) : Preserves I (throw e : EStateM ε σ α) := fun _ h => h

theorem get : Preserves I (get : EStateM ε σ σ) := fun _ h => h

theorem bind {c : EStateM ε σ α} {k : α → EStateM ε σ β} (hc : Preserves I c) (hk : ∀ a, Preserves I (k a)) :
    Preserves I (c >>= k) :=
  Moves.bind (R := fun s t => I s → I t) (fun _ _ _ h h' hI => h' (h hI)) hc hk

end Preserves

end PinpointAgent.Framework
