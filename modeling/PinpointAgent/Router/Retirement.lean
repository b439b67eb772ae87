import PinpointAgent.Router.AgentRouter
import Mathlib.Data.Fintype.Basic
/-!
# Retiring agents

Two promises about `Clean`: a span that `DispatchPacket` accepts is queued on an agent that is
not stopped, and an agent that consumed a span lately is not taken out of the map. The first
needs that no call is on its way to an agent when it is stopped, the second that the request
counter, whose reading is the busy time, counts every span that is consumed.
-/


namespace PinpointAgent.Router

open Framework

def DispatchPc.target : DispatchPc → Option Nat
  | .routed _ agent => some agent
  | _ => none

namespace AgentRouter

variable {ι κ : Type} {cfg : Config} {s t : AgentRouter ι κ}

/-! ### Spans on their way -/

def StopsUnused (s : AgentRouter ι κ) : RouterEvent ι κ → Prop
  | .stop _ i => ∀ c, (s.calls c).target ≠ some i
  | _ => True

instance decidableStopsUnused [Fintype ι] (s : AgentRouter ι κ) :
    (e : RouterEvent ι κ) → Decidable (s.StopsUnused e)
  | .stop _ i => inferInstanceAs (Decidable (∀ c, (s.calls c).target ≠ some i))
  | .tick _ | .decode _ _ | .lookup _ | .create _ | .send _ | .consume _ | .quit _
  | .beginClean _ | .removeExpired _ => inferInstanceAs (Decidable True)

def Alive (s : AgentRouter ι κ) : Prop :=
  ∀ c i, (s.calls c).target = some i → (s.agents i).cancelled = false

private theorem alive_init (clock : Int) : (init clock : AgentRouter ι κ).Alive := by
  intro c i h
  simp [init, DispatchPc.target] at h

private theorem Booked.alive_of_lookup (h : s.Booked) {appid : String} {i : Nat}
    (hi : s.agentMap.lookup appid = some i) : (s.agents i).cancelled = false := by
  obtain ⟨before, after, heq, -⟩ := List.lookup_eq_some_iff.mp hi
  exact (h.kept i (List.mem_map.mpr ⟨(appid, i), by simp [heq], rfl⟩)).2.2

private theorem Alive.setCall [DecidableEq ι] (h : s.Alive) (c : ι) (pc : DispatchPc)
    (hpc : ∀ i, pc.target = some i → (s.agents i).cancelled = false) : (s.setCall c pc).Alive := by
  intro c' i hi
  by_cases hc : c' = c
  · rw [hc, calls_setCall_self] at hi
    exact hpc i hi
  · rw [calls_setCall_of_ne s pc hc] at hi
    exact h c' i hi

private theorem Alive.modifyAgent (h : s.Alive) (i : Nat) (f : GrpcAgent κ → GrpcAgent κ)
    (hf : (f (s.agents i)).cancelled = (s.agents i).cancelled ∨
      ∀ c, (s.calls c).target ≠ some i) : (s.modifyAgent i f).Alive := by
  intro c j hj
  have hj : (s.calls c).target = some j := hj
  by_cases hji : j = i
  · subst hji
    rcases hf with hsame | hunused
    · rw [agents_modifyAgent_self, hsame]
      exact h c j hj
    · exact absurd hj (hunused c)
  · rw [agents_modifyAgent_of_ne s f hji]
    exact h c j hj

private theorem Alive.createAgent (h : s.Alive) (info : AgentInfo) : (s.createAgent info).Alive := by
  intro c i hi
  by_cases hnew : i = s.created
  · rw [hnew, agents_createAgent_self]
    rfl
  · rw [agents_createAgent_of_ne s info hnew]
    exact h c i hi

private theorem Alive.step [DecidableEq ι] [DecidableEq κ] (h : s.Alive) (hbooked : s.Booked) {e : RouterEvent ι κ}
    (hcond : s.StopsUnused e) (hstep : s.step cfg e = some t) : t.Alive := by
  cases e with
  | tick sec =>
    cases hstep
    exact h
  | decode c rawData =>
    simp only [AgentRouter.step] at hstep
    split at hstep <;> cases hstep
    refine h.setCall c _ (fun i hi => ?_)
    simp only [decode] at hi
    repeat' split at hi
    all_goals contradiction
  | lookup c =>
    simp only [AgentRouter.step] at hstep
    split at hstep
    · split at hstep <;> cases hstep
      · rename_i hfound
        exact h.setCall c _ (fun i hi => Option.some.inj hi ▸ hbooked.alive_of_lookup hfound)
      · exact h.setCall c _ (fun i hi => by contradiction)
    · contradiction
  | create c =>
    simp only [AgentRouter.step] at hstep
    split at hstep
    · split at hstep <;> cases hstep
      · rename_i hfound
        exact h.setCall c _ (fun i hi => Option.some.inj hi ▸ hbooked.alive_of_lookup hfound)
      · refine (h.createAgent _).setCall c _ (fun i hi => ?_)
        cases hi
        rw [agents_createAgent_self]
        rfl
    · contradiction
  | send c =>
    simp only [AgentRouter.step] at hstep
    split at hstep
    · split at hstep <;> cases hstep
      exact (h.modifyAgent _ _ (.inl rfl)).setCall c _ (fun i hi => by contradiction)
    · contradiction
  | consume i =>
    simp only [AgentRouter.step] at hstep
    split at hstep <;> cases hstep
    exact h.modifyAgent _ _ (.inl rfl)
  | quit i =>
    simp only [AgentRouter.step] at hstep
    split at hstep <;> cases hstep
    exact h.modifyAgent _ _ (.inl rfl)
  | beginClean k =>
    simp only [AgentRouter.step] at hstep
    split at hstep <;> cases hstep
    exact h
  | removeExpired k =>
    simp only [AgentRouter.step] at hstep
    split at hstep <;> cases hstep
    intro c i hi
    simp only [setClean, AgentRouter.removeExpired]
    split <;> exact h c i hi
  | stop k i =>
    simp only [AgentRouter.step] at hstep
    split at hstep
    · split at hstep <;> cases hstep
      have hmodified := h.modifyAgent i (·.stop k) (.inr hcond)
      exact hmodified
    · contradiction

private theorem returned_of_setCall [DecidableEq ι] {c c' : ι} {pc : DispatchPc}
    (hafter : (s.setCall c' pc).calls c = .returned none) (hbefore : s.calls c ≠ .returned none) :
    c = c' ∧ pc = .returned none := by
  by_cases hc : c = c'
  · refine ⟨hc, ?_⟩
    rwa [hc, calls_setCall_self] at hafter
  · rw [calls_setCall_of_ne s pc hc] at hafter
    exact absurd hafter hbefore

private theorem sent_of_returned [DecidableEq ι] [DecidableEq κ] {e : RouterEvent ι κ} {c : ι}
    (hstep : s.step cfg e = some t)
    (hbefore : s.calls c ≠ .returned none) (hafter : t.calls c = .returned none) :
    ∃ span i, s.calls c = .routed span i ∧ span ∈ (t.agents i).queue ∧
      (t.agents i).cancelled = (s.agents i).cancelled := by
  cases e with
  | send c' =>
    simp only [AgentRouter.step] at hstep
    split at hstep
    · rename_i span i hpc
      split at hstep <;> cases hstep
      obtain ⟨rfl, -⟩ := returned_of_setCall hafter hbefore
      refine ⟨span, i, hpc, ?_, ?_⟩
      · simp [GrpcAgent.sendSpan]
      · simp [GrpcAgent.sendSpan]
    · contradiction
  | decode c' rawData =>
    simp only [AgentRouter.step] at hstep
    split at hstep <;> cases hstep
    have hpc := (returned_of_setCall hafter hbefore).2
    simp only [decode] at hpc
    repeat' split at hpc
    all_goals simp at hpc
  | lookup c' | create c' =>
    simp only [AgentRouter.step] at hstep
    repeat' split at hstep
    all_goals cases hstep
    all_goals simpa using (returned_of_setCall hafter hbefore).2
  | _ =>
    -- the other steps leave the calls alone
    simp only [AgentRouter.step] at hstep
    repeat' split at hstep
    all_goals cases hstep
    all_goals exact absurd hafter hbefore

/-- If no agent is stopped while a call is on its way to it, then whenever `DispatchPacket`
returns nil, the span has been put on the queue of an agent that is not stopped. -/
theorem accepted_span_on_live_agent [DecidableEq ι] [DecidableEq κ] (cfg : Config) (clock : Int)
    (events : List (RouterEvent ι κ)) (s t : AgentRouter ι κ) (e : RouterEvent ι κ) (c : ι)
    (hcond : Along (step cfg) StopsUnused (init clock) events)
    (hrun : exec (step cfg) (init clock) events = some s)
    (hstep : s.step cfg e = some t) (hbefore : s.calls c ≠ .returned none)
    (hafter : t.calls c = .returned none) :
    ∃ span i, s.calls c = .routed span i ∧ span ∈ (t.agents i).queue ∧
      (t.agents i).cancelled = false := by
  have hinv : s.Booked ∧ s.Alive :=
    hcond.invariant (P := fun s => s.Booked ∧ s.Alive)
      (fun _ _ _ h hcond hstep => ⟨h.1.step hstep, h.2.step h.1 hcond hstep⟩)
      ⟨booked_init clock, alive_init clock⟩ hrun
  obtain ⟨span, i, hpc, hqueue, hcancelled⟩ := sent_of_returned hstep hbefore hafter
  exact ⟨span, i, hpc, hqueue, hcancelled.trans (hinv.2 c i (by rw [hpc]; rfl))⟩

/-- A span for an agent that is retired after an idle hour: looked up before the agent is
taken out of the map. -/
def lateSpan : List (RouterEvent Bool Unit) :=
  [.decode false "shop-1", .lookup false, .create false, .send false, .consume 0, .tick 3601, .decode true "shop-1",
    .lookup true, .beginClean (), .removeExpired ()]

theorem accepted_span_on_live_agent_late_span :
    ∃ s t : AgentRouter Bool Unit,
      exec (step plainConfig) (init 1700000000) lateSpan = some s ∧
      s.step plainConfig (.send true) = some t ∧
      ∃ span i, s.calls true = .routed span i ∧ span ∈ (t.agents i).queue ∧
        (t.agents i).cancelled = false :=
  ⟨_, _, rfl, rfl, accepted_span_on_live_agent plainConfig 1700000000 lateSpan _ _ (.send true) true
    (by decide +kernel) rfl rfl (fun h => by cases h) rfl⟩

/-- When the agent is stopped in between, the span is queued on it all the same. -/
theorem accepted_span_on_stopped_agent :
    ∃ s : AgentRouter Bool Unit,
      exec (step plainConfig) (init 1700000000) (lateSpan ++ [.stop () 0, .quit 0, .send true]) = some s ∧
      s.calls true = .returned none ∧ (s.agents 0).queue.length = 1 ∧
      (s.agents 0).cancelled = true ∧ (s.agents 0).consuming = false :=
  ⟨_, rfl, rfl, rfl, rfl, rfl⟩

/-! ### Busy times -/

def CountsSpan (s : AgentRouter ι κ) : RouterEvent ι κ → Prop
  | .consume i => ∀ span ∈ (s.agents i).queue.head?, span.localAsyncId = none
  | _ => True

instance decidableCountsSpan (s : AgentRouter ι κ) :
    (e : RouterEvent ι κ) → Decidable (s.CountsSpan e)
  | .consume _ => inferInstanceAs (Decidable (∀ span ∈ _, _))
  | .tick _ | .decode _ _ | .lookup _ | .create _ | .send _ | .quit _ | .beginClean _
  | .removeExpired _ | .stop _ _ => inferInstanceAs (Decidable True)

structure BusyTime (now : Int) (a : GrpcAgent κ) : Prop where
  past : ∀ time ∈ a.observed, time ≤ now
  last : ∀ time ∈ a.observed.head?, a.getLastBusyTime = time
  le : ∀ time ∈ a.observed, time ≤ a.getLastBusyTime

def Punctual (s : AgentRouter ι κ) : Prop := ∀ i, BusyTime s.clock (s.agents i)

private theorem busyTime_create (now clock : Int) (info : AgentInfo) (pingId : Int) :
    BusyTime clock (.create now info pingId : GrpcAgent κ) := by
  constructor <;> intro time h <;> simp [GrpcAgent.create] at h

private theorem BusyTime.consume {now : Int} {a : GrpcAgent κ} (h : BusyTime now a) (statIntervalSec : Int)
    {span : TSpan} (rest : List TSpan) (hspan : span.localAsyncId = none) :
    BusyTime now (a.consume statIntervalSec now span rest) := by
  have hbusy : (a.consume statIntervalSec now span rest).getLastBusyTime = now := by
    simp only [GrpcAgent.getLastBusyTime, GrpcAgent.consume,
      RequestCounter.getLastBusyTime_interceptor, hspan, Option.isSome_none, Bool.false_eq_true,
      if_false]
  have hpast : ∀ time ∈ (a.consume statIntervalSec now span rest).observed, time ≤ now := by
    intro time htime
    rcases List.mem_cons.mp htime with rfl | hold
    · exact le_rfl
    · exact h.past time hold
  refine ⟨hpast, fun time htime => ?_, fun time htime => ?_⟩
  · rw [hbusy]
    exact Option.some.inj htime
  · rw [hbusy]
    exact hpast time htime

private theorem Punctual.congr (h : s.Punctual) (hclock : t.clock = s.clock)
    (hagents : ∀ i, (t.agents i).observed = (s.agents i).observed ∧
      (t.agents i).reqCounter = (s.agents i).reqCounter) : t.Punctual := by
  intro i
  obtain ⟨hobserved, hcounter⟩ := hagents i
  have hbusy : (t.agents i).getLastBusyTime = (s.agents i).getLastBusyTime := by
    rw [GrpcAgent.getLastBusyTime, GrpcAgent.getLastBusyTime, hcounter]
  obtain ⟨hpast, hlast, hle⟩ := h i
  constructor
  · rwa [hobserved, hclock]
  · rwa [hobserved, hbusy]
  · rwa [hobserved, hbusy]

private theorem Punctual.modifyAgent (h : s.Punctual) (i : Nat) (f : GrpcAgent κ → GrpcAgent κ)
    (hf : BusyTime s.clock (f (s.agents i))) : (s.modifyAgent i f).Punctual := by
  intro j
  by_cases hj : j = i
  · rw [hj, agents_modifyAgent_self]
    exact hf
  · rw [agents_modifyAgent_of_ne s f hj]
    exact h j

private theorem Punctual.step [DecidableEq ι] [DecidableEq κ] (h : s.Punctual) {e : RouterEvent ι κ}
    (hcond : s.CountsSpan e)
    (hstep : s.step cfg e = some t) : t.Punctual := by
  cases e with
  | tick sec =>
    cases hstep
    intro i
    refine ⟨fun time htime => ?_, (h i).last, (h i).le⟩
    have := (h i).past time htime
    change time ≤ s.clock + sec
    omega
  | create c =>
    simp only [AgentRouter.step] at hstep
    split at hstep
    · split at hstep <;> cases hstep
      · exact h
      · intro i
        by_cases hnew : i = s.created
        · rw [agents_setCall, hnew, agents_createAgent_self]
          exact busyTime_create ..
        · rw [agents_setCall, agents_createAgent_of_ne s _ hnew]
          exact h i
    · contradiction
  | send c =>
    simp only [AgentRouter.step] at hstep
    split at hstep
    · split at hstep <;> cases hstep
      exact h.modifyAgent _ (·.sendSpan _) ⟨(h _).past, (h _).last, (h _).le⟩
    · contradiction
  | consume i =>
    simp only [AgentRouter.step] at hstep
    split at hstep <;> cases hstep
    rename_i span rest _ hqueue
    have hspan := hcond span (by rw [hqueue]; rfl)
    exact h.modifyAgent i (·.consume cfg.statIntervalSec s.clock span rest)
      ((h i).consume _ rest hspan)
  | quit i =>
    simp only [AgentRouter.step] at hstep
    split at hstep <;> cases hstep
    exact h.modifyAgent i ({ · with consuming := false }) ⟨(h i).past, (h i).last, (h i).le⟩
  | stop k i =>
    simp only [AgentRouter.step] at hstep
    split at hstep
    · split at hstep <;> cases hstep
      have hmodified : (s.modifyAgent i (·.stop k)).Punctual :=
        h.modifyAgent i (·.stop k) ⟨(h i).past, (h i).last, (h i).le⟩
      exact hmodified
    · contradiction
  | removeExpired k =>
    simp only [AgentRouter.step] at hstep
    split at hstep <;> cases hstep
    refine h.congr rfl (fun i => ?_)
    simp only [setClean, AgentRouter.removeExpired]
    split <;> exact ⟨rfl, rfl⟩
  | _ =>
    -- the remaining steps touch calls only
    simp only [AgentRouter.step] at hstep
    repeat' split at hstep
    all_goals cases hstep
    all_goals exact h

end AgentRouter

end PinpointAgent.Router
