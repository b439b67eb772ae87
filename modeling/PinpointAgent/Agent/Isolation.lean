import PinpointAgent.Agent.Alike
import PinpointAgent.Agent.World
import PinpointAgent.Framework.Interleaving
/-!
# Requests do not leak into each other

A session is what one request does with the agent: it starts a root and then makes calls on the
nodes of that trace, which it names by the order of their starts. Sessions with the same calls,
on agents that served different requests before, read the same answers and hand over the same
spans: whatever `TraceNode::Reset` leaves in a recycled node is overwritten before it is read.
-/

namespace PinpointAgent.Agent

open Framework NodePool

def config (a : Agent) : Int × (Nat → Nat) := (a.agentType, a.clock)

section Config

variable {α β : Type} {id : Int}

private theorem keepsConfig_getUnixTimeMs : Frames Agent.config getUnixTimeMs := fun _ => rfl

private theorem keepsConfig_modifyNode (g : TraceNode → TraceNode) :
    Frames Agent.config (modifyNode id g) := fun _ => rfl

private theorem keepsConfig_getNode : Frames Agent.config getNode := by
  intro a
  unfold finalState getNode
  cases a.pool.getReadyNode <;> rfl

private theorem keepsConfig_appendToRootTrace (root new : Int) :
    Frames Agent.config (appendToRootTrace root new) := by
  intro a
  unfold finalState appendToRootTrace
  obtain ⟨_ | _, _⟩ := a.pool.appendToRootTrace root new <;> rfl

private theorem keepsConfig_appendAnnotationMember (key : String) (v : Json) :
    Frames Agent.config (appendAnnotationMember id key v) := by
  intro a
  unfold finalState appendAnnotationMember
  cases (a.pool.nodeAt id).value.append key v <;> rfl

private theorem keepsConfig_freeNodeTree : Frames Agent.config (freeNodeTree id) := by
  intro a
  unfold finalState freeNodeTree
  cases a.pool.freeNodeTree id <;> rfl

private theorem keepsConfig_startTraceNode : Frames Agent.config (startTraceNode id) :=
  Frames.bind keepsConfig_getUnixTimeMs fun _ => keepsConfig_modifyNode _

private theorem keepsConfig_endTraceNode : Frames Agent.config (endTraceNode id) :=
  Frames.bind keepsConfig_getUnixTimeMs fun _ => keepsConfig_modifyNode _

private theorem keepsConfig_startNode : Frames Agent.config (startNode id) := by
  unfold startNode startRoot startChild
  split
  · exact fun _ => rfl
  · split
    · refine Frames.bind keepsConfig_getNode fun _ => Frames.bind Frames.get fun _ => ?_
      refine Frames.bind (keepsConfig_modifyNode _) fun _ => ?_
      exact Frames.bind keepsConfig_startTraceNode fun _ => Frames.pure _
    · refine Frames.bind (frames_referNode _) fun _ => Frames.bind (frames_referNode _) fun _ => ?_
      refine Frames.bind keepsConfig_getNode fun _ => Frames.bind keepsConfig_startTraceNode fun _ => ?_
      refine Frames.bind (keepsConfig_modifyNode _) fun _ => ?_
      exact Frames.bind (keepsConfig_appendToRootTrace _ _) fun _ => Frames.pure _

private theorem keepsConfig_startTrace (opts : List String) :
    Frames Agent.config (Agent.startTrace id opts) := by
  refine Frames.bind keepsConfig_startNode fun _ => Frames.bind ?_ fun _ => Frames.pure _
  intro a
  rw [finalState_setNodeUserOption]
  rfl

private theorem keepsConfig_encodeNode (root : Int) : Frames Agent.config (encodeNode root id) := by
  refine Frames.bind (frames_referNode _) fun node => Frames.bind ?_ fun _ => ?_
  · unfold forceEnd
    split
    · exact keepsConfig_endTraceNode
    · exact Frames.pure _
  · refine Frames.bind Frames.get fun _ => ?_
    exact Frames.bind (keepsConfig_appendAnnotationMember _ _) fun _ => Frames.pure _

private theorem keepsConfig_encodeLoop (root : Int) (fuel : Nat) (next : Int) :
    Frames Agent.config (encodeLoop root fuel next) := by
  induction fuel generalizing next with
  | zero =>
    unfold encodeLoop
    split
    · exact Frames.pure _
    · exact fun _ => rfl
  | succ fuel ih =>
    unfold encodeLoop
    split
    · exact Frames.pure _
    · exact Frames.bind (keepsConfig_encodeNode root) fun _ => ih _

private theorem keepsConfig_deliverRoot (raises : Bool) : Frames Agent.config (deliverRoot id raises) := by
  refine Frames.bind Frames.get fun _ => ?_
  split
  swap
  · exact Frames.pure _
  refine Frames.bind keepsConfig_endTraceNode fun _ => Frames.bind (frames_referNode _) fun _ => ?_
  refine Frames.bind ?_ fun _ => Frames.bind (fun _ => rfl) fun _ => ?_
  · refine Frames.bind Frames.get fun _ => ?_
    split
    · refine Frames.bind (keepsConfig_encodeLoop _ _ _) fun _ => ?_
      exact Frames.bind (keepsConfig_modifyNode _) fun _ _ => rfl
    · exact fun _ => rfl
  · split <;> exact fun _ => rfl

private theorem keepsConfig_endTrace (raises : Bool) : Frames Agent.config (Agent.endTrace id raises) := by
  refine Frames.bind (frames_referNode _) fun node => ?_
  split
  · refine Frames.bind (keepsConfig_deliverRoot raises) fun _ => ?_
    exact Frames.bind keepsConfig_freeNodeTree fun _ => Frames.pure _
  · exact Frames.bind keepsConfig_endTraceNode fun _ => Frames.pure _

private theorem keepsConfig_getWrapperTraceNode (flag : Int) :
    Frames Agent.config (getWrapperTraceNode id flag) := by
  refine Frames.bind (frames_referNode _) fun _ => ?_
  split
  · exact Frames.bind (frames_referNode _) fun _ => Frames.pure _
  · exact Frames.pure _

private theorem keepsConfig_notInternalKey (key : String) : Frames Agent.config (notInternalKey key) := by
  unfold notInternalKey
  split <;> exact fun _ => rfl

private theorem config_after (a : Agent) (call : ApiCall) : (a.after call).config = a.config := by
  have hwrapper {id : Int} (flag : Int) : Frames Agent.config (getWrapperTraceNode id flag) :=
    keepsConfig_getWrapperTraceNode flag
  cases call with
  | startTrace parentId opts => exact keepsConfig_startTrace opts a
  | endTrace id raises => exact keepsConfig_endTrace raises a
  | addClue id key value flag =>
    exact Frames.bind (keepsConfig_notInternalKey key)
      (fun _ => Frames.bind (hwrapper flag) fun _ => keepsConfig_modifyNode _) a
  | addClues id key value flag =>
    exact Frames.bind (keepsConfig_notInternalKey key)
      (fun _ => Frames.bind (hwrapper flag) fun _ => keepsConfig_appendAnnotationMember _ _) a
  | addException id exception =>
    refine Frames.bind (hwrapper 0) (fun _ => Frames.bind (keepsConfig_modifyNode _) fun _ => ?_) a
    refine Frames.bind (hwrapper 1) fun _ => Frames.bind (keepsConfig_modifyNode _) fun _ => ?_
    exact Frames.bind keepsConfig_getUnixTimeMs fun _ =>
      Frames.bind Frames.get fun _ => keepsConfig_modifyNode _
  | catchError id msg file line =>
    exact Frames.bind (hwrapper 1) (fun _ => keepsConfig_modifyNode _) a
  | setContextKey id key value =>
    exact Frames.bind (hwrapper 1) (fun _ => keepsConfig_modifyNode _) a
  | setAsyncCtx id asyncNodeId nodeSequence =>
    exact Frames.bind (hwrapper 1) (fun _ => keepsConfig_modifyNode _) a
  | changeTraceStatus id status =>
    refine Frames.bind (frames_referNode _) (fun _ => Frames.bind (frames_referNode _) fun _ => ?_) a
    exact Frames.bind Frames.get fun _ => Frames.bind (keepsConfig_modifyNode _) fun _ => Frames.pure _

private theorem World.config_run (w : World) (calls : List ApiCall) :
    (w.run calls).agent.config = w.agent.config := by
  induction calls generalizing w with
  | nil => rfl
  | cons call calls ih => exact (ih (w.step call)).trans (config_after w.agent call)

end Config

inductive NodeCall where
  | startTrace (opts : List String)
  | endTrace (raises : Bool)
  | addClue (key value : String) (flag : Int)
  | addClues (key value : String) (flag : Int)
  | addException (exception : String)
  | catchError (msg file : String) (line : Nat)
  | setContextKey (key value : String)
  | setAsyncCtx (asyncNodeId nodeSequence : Int)
  | changeTraceStatus (status : Int)
  | traceIsRoot
  | getDepth
  | getSequenceId
  | getContextKey (key : String) (hasBuf : Bool) (bufSize : Int)

inductive TraceCall where
  | startRoot (opts : List String)
  /-- A call on the node that the session was given as its `node`-th. -/
  | on (node : Nat) (call : NodeCall)

structure Session where
  agent : Agent
  started : Bool
  /-- The nodes of the trace, as the calls of `pinpoint_start_trace` returned them. -/
  ids : List Int
  /-- What the reading calls returned, with what they wrote to the caller's buffer. -/
  results : List (Int × Option String)

namespace Session

def new (a : Agent) : Session := ⟨a, false, [], []⟩

/-- The session after `pinpoint_start_trace(parent)`: a node whose options threw is in the trace,
but the caller did not get it. There is no step when the pool is exhausted. -/
def startTrace (s : Session) (parent : Int) (opts : List String) : Option Session :=
  match Agent.startTrace parent opts s.agent with
  | .ok id a => some { s with agent := a, started := true, ids := s.ids ++ [id] }
  | .error .poolLimit _ => none
  | .error _ a => some { s with agent := a }

def answer (s : Session) (result : Int × Option String) : Session :=
  { s with results := s.results ++ [result] }

def perform (s : Session) (id : Int) : NodeCall → Option Session
  | .startTrace opts => s.startTrace id opts
  | .endTrace raises => some { s with agent := s.agent.after (.endTrace id raises) }
  | .addClue key value flag => some { s with agent := s.agent.after (.addClue id key value flag) }
  | .addClues key value flag => some { s with agent := s.agent.after (.addClues id key value flag) }
  | .addException exception => some { s with agent := s.agent.after (.addException id exception) }
  | .catchError msg file line => some { s with agent := s.agent.after (.catchError id msg file line) }
  | .setContextKey key value => some { s with agent := s.agent.after (.setContextKey id key value) }
  | .setAsyncCtx asyncNodeId nodeSequence =>
    some { s with agent := s.agent.after (.setAsyncCtx id asyncNodeId nodeSequence) }
  | .changeTraceStatus status =>
    some { s with agent := s.agent.after (.changeTraceStatus id status) }
  | .traceIsRoot => some (s.answer (s.agent.pinpointTraceIsRoot id, none))
  | .getDepth => some (s.answer (s.agent.pinpointGetDepth id, none))
  | .getSequenceId => some (s.answer (s.agent.pinpointGetSequenceId id, none))
  | .getContextKey key hasBuf bufSize =>
    some (s.answer (s.agent.pinpointGetContextKey id key hasBuf bufSize))

/-- One call: the root is started once, and every other call is on a live node of the trace. -/
def step (s : Session) : TraceCall → Option Session
  | .startRoot opts => if s.started then none else s.startTrace rootNode opts
  | .on node call =>
    match s.ids[node]? with
    | none => none
    | some id => if s.agent.pool.Live id then s.perform id call else none

/-- Two sessions that differ in the numbers of their nodes only: neither holds a trace, or both
hold one and were given nodes at the same places. -/
structure Matches (sa sb : List Members) (s t : Session) : Prop where
  started : s.started = t.started
  results : s.results = t.results
  agents : (Vacant sa sb s.agent t.agent ∧ (s.started = false → s.ids = [] ∧ t.ids = [])) ∨
    (s.started = true ∧ ∃ ta tb, Alike ta tb sa sb s.agent t.agent ∧
      List.Forall₂ (Paired ta tb) s.ids t.ids)

section Matches

variable {sa sb : List Members} {s t s' t' : Session} {ta tb : Trace} {i j : Int} {a b : Agent}

private theorem startTrace_of_ok {parent k : Int} {opts : List String} {a₁ a₂ : Agent}
    (hstart : startNode parent a = .ok k a₁)
    (hopts : setNodeUserOption k (if parent = rootNode then [] else opts) a₁ = .ok () a₂) :
    Agent.startTrace parent opts a = .ok k a₂ := by
  rw [Agent.startTrace, bind_of_ok _ hstart, bind_of_ok _ hopts]
  rfl

private theorem startTrace_of_error {parent k : Int} {opts : List String} {a₁ a₂ : Agent} {e : AgentError}
    (hstart : startNode parent a = .ok k a₁)
    (hopts : setNodeUserOption k (if parent = rootNode then [] else opts) a₁ = .error e a₂) :
    Agent.startTrace parent opts a = .error e a₂ := by
  rw [Agent.startTrace, bind_of_ok _ hstart, bind_of_error _ hopts]

private theorem eq_of_startTrace_error {parent : Int} {opts : List String} {e : AgentError}
    (hstart : Agent.startTrace parent opts s.agent = .error e a)
    (hstep : s.startTrace parent opts = some s') : s' = { s with agent := a } := by
  rw [startTrace, hstart] at hstep
  cases e <;> cases hstep <;> rfl

private theorem startNode_of_step {parent : Int} {opts : List String} {f : Forest}
    (h : Holds s.agent.pool f []) (hparent : parent = rootNode ∨ s.agent.pool.Live parent)
    (hstep : s.startTrace parent opts = some s') : ∃ k a, startNode parent s.agent = .ok k a := by
  obtain ⟨k, a, hstart, -⟩ | ⟨e, hstart, ⟨rfl, -⟩ | ⟨hne, hdead⟩⟩ := startNode_spec h parent
  · exact ⟨k, a, hstart⟩
  · have herror : Agent.startTrace parent opts s.agent = .error .poolLimit s.agent := by
      rw [Agent.startTrace, bind_of_error _ hstart]
    rw [startTrace, herror] at hstep
    cases hstep
  · obtain hroot | hlive := hparent
    · exact absurd hroot hne
    · exact absurd hlive hdead

private theorem Matches.startRoot (h : Matches sa sb s t) (opts : List String) (hstarted : s.started = false)
    (hs : s.startTrace rootNode opts = some s') (ht : t.startTrace rootNode opts = some t') :
    Matches sa sb s' t' := by
  obtain ⟨hvacant, hids⟩ | ⟨htrue, -⟩ := h.agents
  swap
  · rw [hstarted] at htrue
    cases htrue
  obtain ⟨k, a, hsa⟩ := startNode_of_step hvacant.left (.inl rfl) hs
  obtain ⟨l, b, hsb⟩ := startNode_of_step hvacant.right (.inl rfl) ht
  have halike := hvacant.startRoot hsa hsb
  have hnil (c : Agent) (n : Int) : ∃ c', setNodeUserOption n [] c = .ok () c' := ⟨_, rfl⟩
  obtain ⟨_, _, a', b', hopta, hoptb, -, halike'⟩ | ⟨e, a', b', hopta, -⟩ :=
    lockstep_setNodeUserOption paired_root [] a b halike
  · rw [startTrace, startTrace_of_ok hsa hopta] at hs
    rw [startTrace, startTrace_of_ok hsb hoptb] at ht
    cases hs
    cases ht
    refine ⟨rfl, h.results, .inr ⟨rfl, _, _, halike', ?_⟩⟩
    rw [(hids hstarted).1, (hids hstarted).2]
    exact .cons paired_root .nil
  · obtain ⟨c', hc'⟩ := hnil a k
    cases hc'.symm.trans hopta

private theorem forall₂_grow {k l : Int} {is js : List Int} (hlen : ta.kids.length = tb.kids.length)
    (h : List.Forall₂ (Paired ta tb) is js) :
    List.Forall₂ (Paired (grow ta k) (grow tb l)) is js :=
  h.imp fun _ _ hp => (paired_grow hlen).2 (.inl hp)

private theorem Matches.startChild (h : Matches sa sb s t) (halike : Alike ta tb sa sb s.agent t.agent)
    (hids : List.Forall₂ (Paired ta tb) s.ids t.ids) (hstarted : s.started = true)
    (hp : Paired ta tb i j) (opts : List String)
    (hs : s.startTrace i opts = some s') (ht : t.startTrace j opts = some t') :
    Matches sa sb s' t' := by
  obtain ⟨⟨hi, -⟩, hj, -⟩ := halike.referred hp
  obtain ⟨k, a, hsa⟩ := startNode_of_step halike.left (.inr hi) hs
  obtain ⟨l, b, hsb⟩ := startNode_of_step halike.right (.inr hj) ht
  have hgrown := halike.startChild hp hsa hsb
  have hnew : Paired (grow ta k) (grow tb l) k l := (paired_grow halike.length).2 (.inr ⟨rfl, rfl⟩)
  have hids' := forall₂_grow (k := k) (l := l) halike.length hids
  have hopts : setNodeUserOption k (if i = rootNode then [] else opts) = setNodeUserOption k opts := by
    rw [if_neg hi.ne_rootNode]
  have hopts' : setNodeUserOption l (if j = rootNode then [] else opts) = setNodeUserOption l opts := by
    rw [if_neg hj.ne_rootNode]
  obtain ⟨_, _, a', b', hopta, hoptb, -, halike'⟩ | ⟨e, a', b', hopta, hoptb, halike'⟩ :=
    lockstep_setNodeUserOption hnew opts a b hgrown
  · rw [startTrace, startTrace_of_ok hsa (hopts ▸ hopta)] at hs
    rw [startTrace, startTrace_of_ok hsb (hopts' ▸ hoptb)] at ht
    cases hs
    cases ht
    exact ⟨rfl, h.results, .inr ⟨rfl, _, _, halike', List.rel_append hids' (.cons hnew .nil)⟩⟩
  · obtain rfl := eq_of_startTrace_error (startTrace_of_error hsa (hopts ▸ hopta)) hs
    obtain rfl := eq_of_startTrace_error (startTrace_of_error hsb (hopts' ▸ hoptb)) ht
    exact ⟨h.started, h.results, .inr ⟨hstarted, _, _, halike', hids'⟩⟩

private theorem Matches.after (h : Matches sa sb s t) (hstarted : s.started = true)
    (hids : List.Forall₂ (Paired ta tb) s.ids t.ids) (halike : Alike ta tb sa sb a b) :
    Matches sa sb { s with agent := a } { t with agent := b } :=
  ⟨h.started, h.results, .inr ⟨hstarted, ta, tb, halike, hids⟩⟩

private theorem Matches.answer (h : Matches sa sb s t) {x y : Int × Option String} (hxy : x = y) :
    Matches sa sb (s.answer x) (t.answer y) :=
  ⟨h.started, by rw [Session.answer, Session.answer, h.results, hxy], h.agents⟩

private theorem Matches.endTrace (h : Matches sa sb s t) (hstarted : s.started = true)
    (hids : List.Forall₂ (Paired ta tb) s.ids t.ids) (halike : Alike ta tb sa sb s.agent t.agent)
    (hp : Paired ta tb i j) (raises : Bool) :
    Matches sa sb { s with agent := s.agent.after (.endTrace i raises) }
      { t with agent := t.agent.after (.endTrace j raises) } := by
  by_cases hroot : i = ta.root
  · have hroot' : j = tb.root := (paired_root.eq_iff halike.nodup.1 halike.nodup.2 hp).1 hroot
    subst hroot hroot'
    obtain ⟨a, b, hea, heb, hvacant⟩ | ⟨e, a, b, hea, heb, halike'⟩ := halike.endTrace_root raises
    · have hsa : s.agent.after (.endTrace ta.root raises) = a := finalState_of_ok hea
      have hsb : t.agent.after (.endTrace tb.root raises) = b := finalState_of_ok heb
      rw [hsa, hsb]
      refine ⟨h.started, h.results, .inl ⟨hvacant, fun hfalse => ?_⟩⟩
      cases hstarted.symm.trans hfalse
    · have hsa : s.agent.after (.endTrace ta.root raises) = a := finalState_of_error hea
      have hsb : t.agent.after (.endTrace tb.root raises) = b := finalState_of_error heb
      rw [hsa, hsb]
      exact h.after hstarted hids halike'
  · exact h.after hstarted hids (halike.endTrace_child hp hroot raises)

private theorem Matches.perform (h : Matches sa sb s t) (hstarted : s.started = true)
    (hids : List.Forall₂ (Paired ta tb) s.ids t.ids) (halike : Alike ta tb sa sb s.agent t.agent)
    (hp : Paired ta tb i j) {call : NodeCall} (hs : s.perform i call = some s')
    (ht : t.perform j call = some t') : Matches sa sb s' t' := by
  obtain ⟨⟨hi, -⟩, hj, -⟩ := halike.referred hp
  cases call with
  | startTrace opts => exact h.startChild halike hids hstarted hp opts hs ht
  | endTrace raises =>
    cases hs
    cases ht
    exact h.endTrace hstarted hids halike hp raises
  | addClue key value flag =>
    cases hs
    cases ht
    exact h.after hstarted hids ((lockstep_annotateTraceV1 hp key value flag).finalState halike)
  | addClues key value flag =>
    cases hs
    cases ht
    exact h.after hstarted hids ((lockstep_annotateTraceV2 hp key value flag).finalState halike)
  | addException exception =>
    cases hs
    cases ht
    exact h.after hstarted hids ((lockstep_annotateExceptionTrace hp exception).finalState halike)
  | catchError msg file line =>
    cases hs
    cases ht
    exact h.after hstarted hids ((lockstep_annotateErrorTrace hp msg file line).finalState halike)
  | setContextKey key value =>
    cases hs
    cases ht
    exact h.after hstarted hids ((lockstep_addTraceContext hp key value).finalState halike)
  | setAsyncCtx asyncNodeId nodeSequence =>
    cases hs
    cases ht
    exact h.after hstarted hids
      ((lockstep_setAsyncContext hp asyncNodeId nodeSequence).finalState halike)
  | changeTraceStatus status =>
    cases hs
    cases ht
    exact h.after hstarted hids ((lockstep_changeTraceStatus hp status).finalState halike)
  | traceIsRoot =>
    cases hs
    cases ht
    apply h.answer
    rw [pinpointTraceIsRoot, pinpointTraceIsRoot, if_neg hi.ne_rootNode, if_neg hj.ne_rootNode]
    obtain ⟨x, _, _, _, hx, hy, rfl, -⟩ | ⟨e, _, _, hx, hy, -⟩ :=
      lockstep_isRootTrace hp _ _ halike
    · rw [hx, hy]
    · rw [hx, hy]
  | getDepth =>
    cases hs
    cases ht
    apply h.answer
    rw [pinpointGetDepth, pinpointGetDepth, if_neg hi.ne_rootNode, if_neg hj.ne_rootNode]
    obtain ⟨x, _, _, _, hx, hy, rfl, -⟩ | ⟨e, _, _, hx, hy, -⟩ := lockstep_getDepth hp _ _ halike
    · rw [hx, hy]
    · rw [hx, hy]
  | getSequenceId =>
    cases hs
    cases ht
    apply h.answer
    rw [pinpointGetSequenceId, pinpointGetSequenceId]
    obtain ⟨x, _, _, _, hx, hy, rfl, -⟩ | ⟨e, _, _, hx, hy, -⟩ :=
      lockstep_getSequenceId hp _ _ halike
    · rw [hx, hy]
    · rw [hx, hy]
  | getContextKey key hasBuf bufSize =>
    cases hs
    cases ht
    apply h.answer
    rw [pinpointGetContextKey, pinpointGetContextKey]
    obtain ⟨x, _, _, _, hx, hy, rfl, -⟩ | ⟨e, _, _, hx, hy, -⟩ :=
      lockstep_getTraceContext hp key hasBuf bufSize _ _ halike
    · rw [hx, hy]
    · rw [hx, hy]

private theorem Matches.step (h : Matches sa sb s t) {call : TraceCall} (hs : s.step call = some s')
    (ht : t.step call = some t') : Matches sa sb s' t' := by
  cases call with
  | startRoot opts =>
    simp only [Session.step] at hs ht
    rw [← h.started] at ht
    split at hs
    · cases hs
    · next hnot =>
      rw [if_neg hnot] at ht
      exact h.startRoot opts (by simpa using hnot) hs ht
  | on node call =>
    simp only [Session.step] at hs ht
    split at hs
    · cases hs
    · next i hi =>
      split at ht
      · cases ht
      · next j hj =>
        split at hs
        swap
        · cases hs
        · next hlive =>
          split at ht
          swap
          · cases ht
          · obtain ⟨hvacant, -⟩ | ⟨hstarted, ta, tb, halike, hids⟩ := h.agents
            · -- without a trace no node is alive
              have hmem := (hvacant.left.live_iff i).1 hlive
              simp at hmem
            · obtain ⟨hleft, rfl⟩ := List.getElem?_eq_some_iff.1 hi
              obtain ⟨hright, rfl⟩ := List.getElem?_eq_some_iff.1 hj
              exact h.perform hstarted hids halike (hids.get hleft hright) hs ht

private theorem Matches.exec {calls : List TraceCall} (h : Matches sa sb s t)
    (hs : exec Session.step s calls = some s') (ht : exec Session.step t calls = some t') :
    Matches sa sb s' t' := by
  induction calls generalizing s t with
  | nil =>
    cases hs
    cases ht
    exact h
  | cons call calls ih =>
    obtain ⟨s₁, hs₁, hs⟩ := Option.bind_eq_some_iff.1 hs
    obtain ⟨t₁, ht₁, ht⟩ := Option.bind_eq_some_iff.1 ht
    exact ih (h.step hs₁ ht₁) hs ht

private theorem Matches.peers (h : Matches sa sb s t) : Peers sa sb s.agent t.agent := by
  obtain ⟨hvacant, -⟩ | ⟨-, _, _, halike, -⟩ := h.agents
  · exact hvacant.peers
  · exact halike.peers

end Matches

/-- A session with the same calls after two histories that ended all their traces reads the
same answers and hands over the same spans, when the clock reads the same. -/
theorem same_answers_and_spans {agentType : Int} {clock₁ clock₂ : Nat → Nat}
    {history₁ history₂ : List ApiCall} {calls : List TraceCall} {w₁ w₂ : World} {t₁ t₂ : Session}
    (hw₁ : w₁ = (World.new agentType clock₁).run history₁)
    (hw₂ : w₂ = (World.new agentType clock₂).run history₂)
    (hended₁ : w₁.forest = []) (hended₂ : w₂.forest = [])
    (hclock : ∀ k, clock₁ (w₁.agent.tick + k) = clock₂ (w₂.agent.tick + k))
    (hrun₁ : exec step (new w₁.agent) calls = some t₁)
    (hrun₂ : exec step (new w₂.agent) calls = some t₂) :
    t₁.results = t₂.results ∧ ∃ spans, t₁.agent.spans = w₁.agent.spans ++ spans ∧
      t₂.agent.spans = w₂.agent.spans ++ spans := by
  have hconfig₁ : w₁.agent.config = (agentType, clock₁) := by
    rw [hw₁, World.config_run]
    rfl
  have hconfig₂ : w₂.agent.config = (agentType, clock₂) := by
    rw [hw₂, World.config_run]
    rfl
  have hholds₁ : Holds w₁.agent.pool [] [] :=
    hended₁ ▸ hw₁ ▸ ((World.ok_new agentType clock₁).run history₁).holds
  have hholds₂ : Holds w₂.agent.pool [] [] :=
    hended₂ ▸ hw₂ ▸ ((World.ok_new agentType clock₂).run history₂).holds
  have hpeers : Peers w₁.agent.spans w₂.agent.spans w₁.agent w₂.agent := by
    refine ⟨?_, fun k => ?_, [], (List.append_nil _).symm, (List.append_nil _).symm⟩
    · exact (congrArg Prod.fst hconfig₁).trans (congrArg Prod.fst hconfig₂).symm
    · have hread₁ := congrFun (congrArg Prod.snd hconfig₁) (w₁.agent.tick + k)
      have hread₂ := congrFun (congrArg Prod.snd hconfig₂) (w₂.agent.tick + k)
      exact hread₁.trans ((hclock k).trans hread₂.symm)
  have hstart : Matches w₁.agent.spans w₂.agent.spans (new w₁.agent) (new w₂.agent) :=
    ⟨rfl, rfl, .inl ⟨⟨hholds₁, hholds₂, hpeers⟩, fun _ => ⟨rfl, rfl⟩⟩⟩
  have hend := hstart.exec hrun₁ hrun₂
  exact ⟨hend.results, hend.peers.spans⟩

def earlierRequest : List ApiCall :=
  [.startTrace 0 [], .startTrace 128 [], .setContextKey 127 "user" "a", .addException 127 "e",
    .endTrace 127 false, .endTrace 128 false]

def laterRequest : List TraceCall :=
  [.startRoot [], .on 0 (.startTrace []), .on 0 (.getContextKey "user" true 8), .on 1 .getDepth,
    .on 1 .getSequenceId, .on 0 (.endTrace false)]

def servedBefore (history : List ApiCall) : World := (World.new 1500 fun _ => 7).run history

theorem same_answers_and_spans_later_request :
    ∃ t₁ t₂ : Session, t₁.results = t₂.results ∧ ∃ spans,
      t₁.agent.spans = (servedBefore []).agent.spans ++ spans ∧
      t₂.agent.spans = (servedBefore earlierRequest).agent.spans ++ spans := by
  obtain ⟨t₁, ht₁⟩ := Option.isSome_iff_exists.1
    (by decide +kernel : (exec step (new (servedBefore []).agent) laterRequest).isSome)
  obtain ⟨t₂, ht₂⟩ := Option.isSome_iff_exists.1
    (by decide +kernel : (exec step (new (servedBefore earlierRequest).agent) laterRequest).isSome)
  have hended₁ : (servedBefore []).forest = [] := rfl
  have hended₂ : (servedBefore earlierRequest).forest = [] := by decide +kernel
  have hw (history : List ApiCall) :
      servedBefore history = (World.new 1500 fun _ => 7).run history := rfl
  have hclock (k : Nat) : (fun _ => 7 : Nat → Nat) ((servedBefore []).agent.tick + k) =
      (fun _ => 7 : Nat → Nat) ((servedBefore earlierRequest).agent.tick + k) := rfl
  exact ⟨t₁, t₂, same_answers_and_spans (hw _) (hw _) hended₁ hended₂ hclock ht₁ ht₂⟩

end Session

end PinpointAgent.Agent
