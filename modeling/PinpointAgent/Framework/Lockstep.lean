import PinpointAgent.Framework.Effect
/-!
# Two computations in lockstep

`Lockstep R V c d`: from related states `c` and `d` end alike, both with values related by `V`
or both with the same exception, and in related states. Two runs of one program that may differ
in names are compared by these rules, one primitive at a time.
-/

namespace PinpointAgent.Framework

variable {ε σ α β γ δ : Type} {R : σ → σ → Prop} {V : α → β → Prop} {W : γ → δ → Prop}

def Lockstep (R : σ → σ → Prop) (V : α → β → Prop) (c : EStateM ε σ α) (d : EStateM ε σ β) : Prop :=
  ∀ s t, R s t →
    (∃ x y s' t', c s = .ok x s' ∧ d t = .ok y t' ∧ V x y ∧ R s' t') ∨
    ∃ e s' t', c s = .error e s' ∧ d t = .error e t' ∧ R s' t'

namespace Lockstep

theorem pure {x : α} {y : β} (h : V x y) : Lockstep R V (pure x : EStateM ε σ α) (pure y) :=
  fun s t hR => .inl ⟨x, y, s, t, rfl, rfl, h, hR⟩

theorem throw (e : ε) : Lockstep R V (throw e : EStateM ε σ α) (throw e) :=
  fun s t hR => .inr ⟨e, s, t, rfl, rfl, hR⟩

theorem get : Lockstep R R (get : EStateM ε σ σ) get :=
  fun s t hR => .inl ⟨s, t, s, t, rfl, rfl, hR, hR⟩

theorem modify {f g : σ → σ} (h : ∀ s t, R s t → R (f s) (g t)) :
    Lockstep R Eq (modify f : EStateM ε σ PUnit) (modify g) :=
  fun s t hR => .inl ⟨⟨⟩, ⟨⟩, f s, g t, rfl, rfl, rfl, h s t hR⟩

theorem bind {c : EStateM ε σ α} {d : EStateM ε σ β} {k : α → EStateM ε σ γ} {l : β → EStateM ε σ δ}
    (hc : Lockstep R V c d) (hk : ∀ x y, V x y → Lockstep R W (k x) (l y)) :
    Lockstep R W (c >>= k) (d >>= l) := by
  intro s t hR
  obtain ⟨x, y, s', t', hcs, hdt, hV, hR'⟩ | ⟨e, s', t', hcs, hdt, hR'⟩ := hc s t hR
  · rw [bind_of_ok k hcs, bind_of_ok l hdt]
    exact hk x y hV s' t' hR'
  · exact .inr ⟨e, s', t', bind_of_error k hcs, bind_of_error l hdt, hR'⟩

theorem finalState {c : EStateM ε σ α} {d : EStateM ε σ β} (h : Lockstep R V c d) {s t : σ}
    (hR : R s t) : R (finalState c s) (Framework.finalState d t) := by
  obtain ⟨x, y, s', t', hcs, hdt, -, hR'⟩ | ⟨e, s', t', hcs, hdt, hR'⟩ := h s t hR
  · rw [finalState_of_ok hcs, finalState_of_ok hdt]
    exact hR'
  · rw [finalState_of_error hcs, finalState_of_error hdt]
    exact hR'

end Lockstep

end PinpointAgent.Framework
