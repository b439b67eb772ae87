import PinpointAgent.Framework.TryFinally

/-!
# A log beside the state

A computation over `σ × γ` that never lets the log decide anything is one over `σ` with notes taken
along the way. `Erases l c` says so: without the log, `l` is `c`. It is proved one construct at a time,
so what is read off the log of `l` is true of the runs of `c`.
-/

namespace PinpointAgent.Framework

variable {ε σ γ α β : Type}

def attempt (c : EStateM ε σ α) : EStateM ε σ (Except ε α) := fun s =>
  match c s with
  | .ok a s' => .ok (.ok a) s'
  | .error e s' => .ok (.error e) s'

def ofOutcome : Except ε α → EStateM ε σ α
  | .ok a => pure a
  | .error e => throw e

def forget : EStateM.Result ε (σ × γ) α → EStateM.Result ε σ α
  | .ok a s => .ok a s.1
  | .error e s => .error e s.1

def unlogged (c : EStateM ε σ α) : EStateM ε (σ × γ) α := fun s =>
  match c s.1 with
  | .ok a s' => .ok a (s', s.2)
  | .error e s' => .error e (s', s.2)

def note (write : σ × γ → γ) : EStateM ε (σ × γ) Unit := modify fun s => (s.1, write s)

def noteError (write : γ → γ) (c : EStateM ε σ α) : EStateM ε (σ × γ) α := fun s =>
  match c s.1 with
  | .ok a s' => .ok a (s', s.2)
  | .error e s' => .error e (s', write s.2)

/-- `c` with a log of its own, which `close` puts into the one around it, knowing the states before and
after. -/
def within (begin : γ → γ) (close : σ × γ → σ × γ → γ) (c : EStateM ε (σ × γ) α) : EStateM ε (σ × γ) α := fun s =>
  match c (s.1, begin s.2) with
  | .ok a s' => .ok a (s'.1, close s s')
  | .error e s' => .error e (s'.1, close s s')

section Results

variable {c : EStateM ε σ α} {s : σ × γ} {s' : σ} {a : α} {e : ε}

theorem unlogged_of_ok (h : c s.1 = .ok a s') : unlogged c s = .ok a (s', s.2) := by
  simp only [unlogged, h]

theorem unlogged_of_error (h : c s.1 = .error e s') : unlogged c s = .error e (s', s.2) := by
  simp only [unlogged, h]

theorem noteError_of_ok (write : γ → γ) (h : c s.1 = .ok a s') : noteError write c s = .ok a (s', s.2) := by
  simp only [noteError, h]

theorem noteError_of_error (write : γ → γ) (h : c s.1 = .error e s') :
    noteError write c s = .error e (s', write s.2) := by
  simp only [noteError, h]

end Results

section FinalStates

variable {c : EStateM ε σ α} {l : EStateM ε (σ × γ) α}

theorem finalState_attempt (s : σ) : finalState (attempt c) s = finalState c s := by
  cases h : c s <;> simp only [finalState, attempt, h]

theorem finalState_unlogged (s : σ × γ) : finalState (unlogged c) s = (finalState c s.1, s.2) := by
  cases h : c s.1 <;> simp only [finalState, unlogged, h]

theorem finalState_within (begin : γ → γ) (close : σ × γ → σ × γ → γ) (s : σ × γ) :
    finalState (within begin close l) s =
      ((finalState l (s.1, begin s.2)).1, close s (finalState l (s.1, begin s.2))) := by
  cases h : l (s.1, begin s.2) <;> simp only [finalState, within, h]

end FinalStates

/-- Without the log, `l` is `c`. -/
def Erases (l : EStateM ε (σ × γ) α) (c : EStateM ε σ α) : Prop := ∀ s, forget (l s) = c s.1

namespace Erases

variable {l : EStateM ε (σ × γ) α} {c : EStateM ε σ α}

theorem pure (a : α) : Erases (pure a : EStateM ε (σ × γ) α) (pure a : EStateM ε σ α) := fun _ => rfl

theorem throw (e : ε) : Erases (throw e : EStateM ε (σ × γ) α) (throw e : EStateM ε σ α) := fun _ => rfl

theorem ofOutcome (outcome : Except ε α) :
    Erases (ofOutcome outcome : EStateM ε (σ × γ) α) (ofOutcome outcome : EStateM ε σ α) := by
  cases outcome with
  | ok a => exact .pure a
  | error e => exact .throw e

theorem unlogged (c : EStateM ε σ α) : Erases (unlogged c : EStateM ε (σ × γ) α) c := by
  intro s
  cases h : c s.1 <;> simp only [Framework.unlogged, forget, h]

theorem noteError (write : γ → γ) (c : EStateM ε σ α) : Erases (noteError write c) c := by
  intro s
  cases h : c s.1 <;> simp only [Framework.noteError, forget, h]

theorem bind {k : α → EStateM ε (σ × γ) β} {j : α → EStateM ε σ β} (h : Erases l c) (hk : ∀ a, Erases (k a) (j a)) :
    Erases (l >>= k) (c >>= j) := by
  intro s
  have hs := h s
  cases hl : l s with
  | ok a s' =>
    rw [hl] at hs
    rw [bind_of_ok k hl, bind_of_ok j hs.symm]
    exact hk a s'
  | error e s' =>
    rw [hl] at hs
    rw [bind_of_error k hl, bind_of_error j hs.symm]
    rfl

theorem note_bind (write : σ × γ → γ) {k : EStateM ε (σ × γ) β} {j : EStateM ε σ β} (h : Erases k j) :
    Erases (note write >>= fun _ => k) j := fun s => h (s.1, write s)

theorem attempt (h : Erases l c) : Erases (attempt l) (attempt c) := by
  intro s
  have hs := h s
  cases hl : l s <;>
  · rw [hl] at hs
    simp only [Framework.attempt, hl, ← hs, forget]

theorem within (begin : γ → γ) (close : σ × γ → σ × γ → γ) (h : Erases l c) : Erases (within begin close l) c := by
  intro s
  rw [← h (s.1, begin s.2)]
  cases hl : l (s.1, begin s.2) <;> simp only [Framework.within, hl, forget]

theorem tryExcept {catches : ε → Bool} {handler : ε → EStateM ε (σ × γ) α} {handler' : ε → EStateM ε σ α}
    (h : Erases l c) (hhandler : ∀ e, Erases (handler e) (handler' e)) :
    Erases (tryExcept catches l handler) (tryExcept catches c handler') := by
  intro s
  have hs := h s
  cases hl : l s with
  | ok a s' =>
    rw [hl] at hs
    rw [tryExcept_ok hl, tryExcept_ok hs.symm]
    rfl
  | error e s' =>
    rw [hl] at hs
    cases hcatches : catches e with
    | true =>
      rw [tryExcept_caught hl hcatches, tryExcept_caught hs.symm hcatches]
      exact hhandler e s'
    | false =>
      rw [tryExcept_passed hl hcatches, tryExcept_passed hs.symm hcatches]
      rfl

theorem tryFinally {last : Option α → EStateM ε (σ × γ) Unit} {last' : Option α → EStateM ε σ Unit}
    (h : Erases l c) (hlast : ∀ ret, Erases (last ret) (last' ret)) :
    Erases (tryFinally l last) (tryFinally c last') := by
  intro s
  have hs := h s
  cases hl : l s with
  | ok a s' =>
    rw [hl] at hs
    simp only [Framework.tryFinally, hl, ← hs, forget]
    exact (hlast (some a)).bind (fun _ => .pure a) s'
  | error e s' =>
    rw [hl] at hs
    simp only [Framework.tryFinally, hl, ← hs, forget]
    exact (hlast none).bind (fun _ => .throw e) s'

end Erases

end PinpointAgent.Framework
