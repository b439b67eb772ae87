import PinpointAgent.Framework.Effect

/-!
# Blocks that catch and blocks that always run

`tryExcept` is a `try … except` that catches some exceptions, `tryFinally` a `try … finally` whose last
block falls off its end, and `tryReturn` one whose last block returns: what it returns or raises takes
the place of whatever the body did. The last block sees the value of the body, or `none` when the
body raised.
-/

namespace PinpointAgent.Framework

variable {ε σ α β : Type}

def tryExcept (catches : ε → Bool) (body : EStateM ε σ α) (handler : ε → EStateM ε σ α) : EStateM ε σ α :=
  fun s => match body s with
    | .ok a s' => .ok a s'
    | .error e s' => if catches e then handler e s' else .error e s'

def tryFinally (body : EStateM ε σ α) (last : Option α → EStateM ε σ Unit) : EStateM ε σ α :=
  fun s => match body s with
    | .ok a s' => (last (some a) >>= fun _ => pure a) s'
    | .error e s' => (last none >>= fun _ => throw e) s'

def tryReturn (body : EStateM ε σ α) (last : Option α → EStateM ε σ β) : EStateM ε σ β :=
  fun s => match body s with
    | .ok a s' => last (some a) s'
    | .error _ s' => last none s'

section Rules

variable {catches : ε → Bool} {body : EStateM ε σ α} {handler : ε → EStateM ε σ α}
  {last : Option α → EStateM ε σ Unit} {s s' s'' : σ} {a : α} {e : ε}

theorem tryExcept_ok (h : body s = .ok a s') : tryExcept catches body handler s = .ok a s' := by
  simp only [tryExcept, h]

theorem tryExcept_caught (h : body s = .error e s') (hcatches : catches e = true) :
    tryExcept catches body handler s = handler e s' := by
  simp only [tryExcept, h, hcatches, if_true]

theorem tryExcept_passed (h : body s = .error e s') (hcatches : catches e = false) :
    tryExcept catches body handler s = .error e s' := by
  simp only [tryExcept, h, hcatches, Bool.false_eq_true, if_false]

theorem tryFinally_ok (h : body s = .ok a s') (hlast : last (some a) s' = .ok () s'') :
    tryFinally body last s = .ok a s'' := by
  simp only [tryFinally, h, bind_of_ok _ hlast]
  rfl

theorem tryFinally_error (h : body s = .error e s') (hlast : last none s' = .ok () s'') :
    tryFinally body last s = .error e s'' := by
  simp only [tryFinally, h, bind_of_ok _ hlast]
  rfl

theorem tryReturn_ok {last : Option α → EStateM ε σ β} (h : body s = .ok a s') :
    tryReturn body last s = last (some a) s' := by
  simp only [tryReturn, h]

theorem tryReturn_error {last : Option α → EStateM ε σ β} (h : body s = .error e s') :
    tryReturn body last s = last none s' := by
  simp only [tryReturn, h]

theorem Moves.tryExcept {R : σ → σ → Prop} (htrans : ∀ s t u, R s t → R t u → R s u) (hbody : Moves R body)
    (hhandler : ∀ e, Moves R (handler e)) : Moves R (tryExcept catches body handler) := by
  intro s
  have hs := hbody s
  cases h : body s with
  | ok a s' =>
    rw [finalState_of_ok (tryExcept_ok h), ← finalState_of_ok h]
    exact hs
  | error e s' =>
    rw [finalState_of_error h] at hs
    cases hcatches : catches e with
    | true =>
      rw [finalState, tryExcept_caught h hcatches]
      exact htrans s s' _ hs (hhandler e s')
    | false =>
      rw [finalState_of_error (tryExcept_passed h hcatches)]
      exact hs

theorem finalState_bind_throw (c : EStateM ε σ β) (e : ε) (s : σ) :
    finalState (c >>= fun _ => (throw e : EStateM ε σ α)) s = finalState c s := by
  cases h : c s with
  | ok a s' =>
    rw [finalState_bind_of_ok _ h, finalState_of_ok h]
    rfl
  | error e' s' => rw [finalState_of_error (bind_of_error _ h), finalState_of_error h]

theorem finalState_tryFinally (body : EStateM ε σ α) (last : Option α → EStateM ε σ Unit) (s : σ) :
    ∃ ret, finalState (tryFinally body last) s = finalState (last ret) (finalState body s) := by
  cases h : body s with
  | ok a s' =>
    refine ⟨some a, ?_⟩
    rw [finalState_of_ok h, ← finalState_bind_pure (last (some a)) a, finalState, tryFinally, h]
    rfl
  | error e s' =>
    refine ⟨none, ?_⟩
    rw [finalState_of_error h, ← finalState_bind_throw (last none) e, finalState, tryFinally, h]
    rfl

end Rules

end PinpointAgent.Framework
