import PinpointAgent.Agent.Forest
/-!
# Runs of the agent

`World` runs the agent on a sequence of calls with arbitrary arguments, together with the
forest that the calls describe. In every state the pool holds that forest, so the links
threaded through recycled nodes are those of the traces that were started and not ended.
-/

namespace PinpointAgent.Agent

open Framework NodePool

/-- The agent and the traces its calls started and did not end. -/
structure World where
  agent : Agent
  forest : Forest

namespace World

def new (agentType : Int) (clock : Nat → Nat) : World := ⟨.new agentType clock, []⟩

/-- What a call does to the traces: a start that got a node adds it, an end that did not
throw removes the trace of that root. -/
def nextForest (w : World) : ApiCall → Forest
  | .startTrace parentId _ =>
    match startNode parentId w.agent with
    | .ok id _ => w.forest.start parentId id
    | .error _ _ => w.forest
  | .endTrace id raises =>
    match endTrace id raises w.agent with
    | .ok _ _ => w.forest.finish id
    | .error _ _ => w.forest
  | _ => w.forest

def step (w : World) (call : ApiCall) : World := ⟨w.agent.after call, w.nextForest call⟩

def run (w : World) (calls : List ApiCall) : World := calls.foldl step w

def Along (P : World → ApiCall → Prop) (w : World) : List ApiCall → Prop
  | [] => True
  | call :: calls => P w call ∧ Along P (w.step call) calls

instance decidableAlong (P : World → ApiCall → Prop) [∀ w call, Decidable (P w call)] (w : World) :
    (calls : List ApiCall) → Decidable (Along P w calls)
  | [] => isTrue trivial
  | call :: calls =>
    have := decidableAlong P (w.step call) calls
    inferInstanceAs (Decidable (P w call ∧ Along P (w.step call) calls))

/-- The pool holds the forest, and no walk has met a dead node. -/
structure Ok (w : World) : Prop where
  holds : Holds w.agent.pool w.forest []
  log : w.agent.pool.notAliveLog = []

variable {w : World}

theorem ok_new (agentType : Int) (clock : Nat → Nat) : (new agentType clock).Ok :=
  ⟨.new, rfl⟩

private theorem Ok.of_view {a : Agent} (h : w.Ok) (hview : a.view = w.agent.view) :
    Ok ⟨a, w.forest⟩ :=
  ⟨h.holds.congr hview, (PoolManager.sameAllocation_of_view hview).log.trans h.log⟩

theorem after_startTrace {a a' : Agent} {id parentId : Int} (opts : List String)
    (hstart : startNode parentId a = .ok id a') :
    a.after (.startTrace parentId opts) =
      finalState (setNodeUserOption id (if parentId = rootNode then [] else opts)) a' := by
  rw [after, Agent.startTrace, finalState_bind_of_ok _ hstart, finalState_bind_pure]

theorem view_after_startTrace {a a' : Agent} {id parentId : Int} (opts : List String)
    (hstart : startNode parentId a = .ok id a') : (a.after (.startTrace parentId opts)).view = a'.view := by
  rw [after_startTrace opts hstart]
  exact frames_setNodeUserOption id _ a'

theorem after_startTrace_of_error {a : Agent} {parentId : Int} {e : AgentError} (opts : List String)
    (hstart : startNode parentId a = .error e a) : a.after (.startTrace parentId opts) = a := by
  apply finalState_of_error
  rw [Agent.startTrace, bind_of_error _ hstart]

theorem nextForest_startTrace {a' : Agent} {id parentId : Int} (opts : List String)
    (hstart : startNode parentId w.agent = .ok id a') :
    w.nextForest (.startTrace parentId opts) = w.forest.start parentId id := by
  simp only [nextForest, hstart]

theorem nextForest_startTrace_of_error {parentId : Int} {e : AgentError} (opts : List String)
    (hstart : startNode parentId w.agent = .error e w.agent) :
    w.nextForest (.startTrace parentId opts) = w.forest := by
  simp only [nextForest, hstart]

private theorem Ok.startTrace (h : w.Ok) (parentId : Int) (opts : List String) :
    (w.step (.startTrace parentId opts)).Ok := by
  obtain ⟨id, a', hstart, hstarted⟩ | ⟨e, hstart, _⟩ := startNode_spec h.holds parentId
  · rw [step, nextForest_startTrace opts hstart]
    exact Ok.of_view (w := ⟨a', _⟩) ⟨hstarted.holds, hstarted.log.trans h.log⟩ (view_after_startTrace opts hstart)
  · rw [step, after_startTrace_of_error opts hstart, nextForest_startTrace_of_error opts hstart]
    exact h

private theorem Ok.endTrace (h : w.Ok) (id : Int) (raises : Bool) :
    (w.step (.endTrace id raises)).Ok := by
  have hother : ∀ e a', Agent.endTrace id raises w.agent = .error e a' → a'.view = w.agent.view →
      (w.step (.endTrace id raises)).Ok := by
    intro e a' hend hview
    have hagent : w.agent.after (.endTrace id raises) = a' := finalState_of_error hend
    have hforest : w.nextForest (.endTrace id raises) = w.forest := by simp only [nextForest, hend]
    rw [step, hagent, hforest]
    exact h.of_view hview
  by_cases hroot : ∃ t ∈ w.forest, t.root = id
  · obtain ⟨t, ht, rfl⟩ := hroot
    have hspec := endTrace_root h.holds ht raises
    split at hspec
    · obtain ⟨b, q, _, _, hend, hholds, _, _, hlog⟩ := hspec
      have hagent : w.agent.after (.endTrace t.root raises) = { b with pool := q } :=
        finalState_of_ok hend
      have hforest : w.nextForest (.endTrace t.root raises) = w.forest.finish t.root := by
        simp only [nextForest, hend]
      rw [step, hagent, hforest]
      exact ⟨hholds, hlog.trans h.log⟩
    · obtain ⟨e, b, _, hview, hend, _⟩ := hspec
      exact hother e b hend hview
  · have hne : ∀ t ∈ w.forest, t.root ≠ id := fun t ht heq => hroot ⟨t, ht, heq⟩
    have hview := endTrace_other h.holds hne raises
    have hforest : w.nextForest (.endTrace id raises) = w.forest := by
      have hfinish : w.forest.finish id = w.forest :=
        List.filter_eq_self.2 fun t ht => decide_eq_true (hne t ht)
      cases hend : Agent.endTrace id raises w.agent with
      | ok parent a' => simp only [nextForest, hend, hfinish]
      | error e a' => simp only [nextForest, hend]
    rw [step, hforest]
    exact h.of_view hview

/-- Every call, with whatever arguments, leaves a pool that holds the forest. -/
theorem Ok.step (h : w.Ok) (call : ApiCall) : (w.step call).Ok := by
  cases call with
  | startTrace parentId opts => exact h.startTrace parentId opts
  | endTrace id raises => exact h.endTrace id raises
  | addClue id key value flag => exact h.of_view (frames_annotateTraceV1 id key value flag w.agent)
  | addClues id key value flag => exact h.of_view (frames_annotateTraceV2 id key value flag w.agent)
  | addException id exception => exact h.of_view (frames_annotateExceptionTrace id exception w.agent)
  | catchError id msg file line => exact h.of_view (frames_annotateErrorTrace id msg file line w.agent)
  | setContextKey id key value => exact h.of_view (frames_addTraceContext id key value w.agent)
  | setAsyncCtx id asyncNodeId nodeSequence =>
    exact h.of_view (frames_setAsyncContext id asyncNodeId nodeSequence w.agent)
  | changeTraceStatus id status => exact h.of_view (changeTraceStatus_view h.holds id status)

theorem Ok.run (h : w.Ok) (calls : List ApiCall) : (w.run calls).Ok := by
  induction calls generalizing w with
  | nil => exact h
  | cons call calls ih => exact ih (h.step call)

end World

/-- A root: its root and its parent are itself, at depth zero. -/
def IsRoot (p : PoolManager) (id : Int) : Prop :=
  (p.nodeAt id).id = id ∧ (p.nodeAt id).rootId = id ∧ (p.nodeAt id).parentId = id ∧
    (p.nodeAt id).depth = 0

/-- A node under a live root, with a live parent in the same tree one level above it. -/
def IsChild (p : PoolManager) (id : Int) : Prop :=
  p.Live (p.nodeAt id).rootId ∧ IsRoot p (p.nodeAt id).rootId ∧ p.Live (p.nodeAt id).parentId ∧
    (p.nodeAt (p.nodeAt id).parentId).rootId = (p.nodeAt id).rootId ∧
    (p.nodeAt id).depth = (p.nodeAt (p.nodeAt id).parentId).depth + 1

instance decidableIsRoot (p : PoolManager) (id : Int) : Decidable (IsRoot p id) :=
  inferInstanceAs (Decidable (_ ∧ _))

/-- Following `next_` from the root `r` visits `kids`, which with `r` are the live nodes of
its tree; the `i`-th of them has sequence number `i`, and `last` names the final one. -/
structure RootChain (p : PoolManager) (r : Int) (kids : List Int) : Prop where
  chain : Chain p (p.nodeAt r).next kids
  nodup : (r :: kids).Nodup
  mem_iff : ∀ id, id ∈ r :: kids ↔ p.Live id ∧ (p.nodeAt id).rootId = r
  sequence : ∀ (i : Nat) (k : Int), kids[i]? = some k → (p.nodeAt k).sequence = i
  last : (p.rootExtra r).last = kids.getLastD invalidNode

section Holds

variable {p : PoolManager} {f : Forest} {t : Trace} {id : Int}

private theorem isRoot_of_traceOk (h : TraceOk p t) : IsRoot p t.root :=
  ⟨h.root_id, congrArg Shape.rootId h.root, congrArg Shape.parentId h.root,
    congrArg Shape.depth h.root⟩

private theorem isRoot_or_isChild (h : Holds p f []) (hlive : p.Live id) : IsRoot p id ∨ IsChild p id := by
  obtain ⟨t, ht, hmem⟩ := h.exists_trace hlive
  have hok := h.ok t ht
  obtain rfl | hkid := List.mem_cons.1 hmem
  · exact .inl (isRoot_of_traceOk hok)
  · right
    obtain ⟨i, hi⟩ := List.mem_iff_getElem?.1 hkid
    obtain ⟨parent, hparent, hshape⟩ := hok.kid i id hi
    have hrootId : (p.nodeAt id).rootId = t.root := congrArg Shape.rootId hshape
    have hparentId : (p.nodeAt id).parentId = parent := congrArg Shape.parentId hshape
    have hdepth : (p.nodeAt id).depth = (p.nodeAt parent).depth + 1 := congrArg Shape.depth hshape
    rw [IsChild, hrootId, hparentId]
    exact ⟨h.live_of_mem ht (List.mem_cons_self ..), isRoot_of_traceOk hok, h.live_of_mem ht hparent,
      (hok.node_ids hparent).2, hdepth⟩

theorem exists_trace_of_root {r : Int} (h : Holds p f []) (hlive : p.Live r)
    (hroot : (p.nodeAt r).rootId = r) : ∃ t ∈ f, t.root = r := by
  obtain ⟨t, ht, hmem⟩ := h.exists_trace hlive
  exact ⟨t, ht, ((h.ok t ht).node_ids hmem).2.symm.trans hroot⟩

private theorem rootChain_of_holds (h : Holds p f []) (ht : t ∈ f) : RootChain p t.root t.kids := by
  have hok := h.ok t ht
  obtain ⟨l₁, l₂, hf, hnodup, hdisjoint⟩ := h.exists_split ht
  refine ⟨hok.chain, hnodup, ?_, ?_, hok.rootExtra_eq.1⟩
  · intro id
    constructor
    · intro hid
      exact ⟨h.live_of_mem ht hid, (hok.node_ids hid).2⟩
    · rintro ⟨hlive, hrootId⟩
      obtain ⟨u, hu, hmem⟩ := h.exists_trace hlive
      have hroot : u.root = t.root := ((h.ok u hu).node_ids hmem).2.symm.trans hrootId
      have hnotin := hdisjoint t.root (List.mem_cons_self ..)
      rw [hf, List.mem_append, List.mem_cons] at hu
      obtain hu | rfl | hu := hu
      · exact absurd (Forest.mem_nodes_of_mem hu (hroot ▸ List.mem_cons_self ..)) hnotin.1
      · exact hmem
      · exact absurd (Forest.mem_nodes_of_mem hu (hroot ▸ List.mem_cons_self ..)) hnotin.2
  · intro i k hk
    obtain ⟨_, _, hshape⟩ := hok.kid i k hk
    exact congrArg Shape.sequence hshape

end Holds

/-- In every reachable state the live nodes form trees, each threaded from its root in the
order of the starts; so no walk over a tree meets a dead node or fails to end. -/
theorem trace_forest (agentType : Int) (clock : Nat → Nat) (calls : List ApiCall) :
    let w := (World.new agentType clock).run calls
    let p := w.agent.pool
    (∀ id, p.Live id → IsRoot p id ∨ IsChild p id) ∧
    (∀ r, p.Live r → IsRoot p r → ∃ t ∈ w.forest, t.root = r ∧ RootChain p r t.kids) ∧
    (∀ t ∈ w.forest, ∀ u ∈ w.forest, t.root ≠ u.root → List.Disjoint t.nodes u.nodes) ∧
    (∀ r, p.Live r → IsRoot p r →
      (∃ q, p.freeNodeTree r = some q ∧ q.notAliveLog = []) ∧
      ((∃ span a', encodeTraceToJsonSpan r w.agent = .ok span a') ∨
        ∃ a', encodeTraceToJsonSpan r w.agent = .error .notAppendable a')) ∧
    (∀ parent, p.Live parent → (∃ id a', startNode parent w.agent = .ok id a') ∨
      startNode parent w.agent = .error .poolLimit w.agent) := by
  intro w p
  have hok : w.Ok := (World.ok_new agentType clock).run calls
  have h := hok.holds
  refine ⟨fun id => isRoot_or_isChild h, ?_, ?_, ?_, ?_⟩
  · intro r hlive hroot
    obtain ⟨t, ht, rfl⟩ := exists_trace_of_root h hlive hroot.2.1
    exact ⟨t, ht, rfl, rootChain_of_holds h ht⟩
  · intro t ht u hu hne id hid hid'
    exact hne (((h.ok t ht).node_ids hid).2.symm.trans ((h.ok u hu).node_ids hid').2)
  · intro r hlive hroot
    obtain ⟨t, ht, rfl⟩ := exists_trace_of_root h hlive hroot.2.1
    obtain ⟨q, hq, _, _, _, hlog⟩ := h.freeNodeTree ht
    refine ⟨⟨q, hq, hlog.trans hok.log⟩, ?_⟩
    have hencode := encodeTraceToJsonSpan_eq h ht
    split at hencode
    · exact .inl ⟨_, _, hencode⟩
    · exact .inr ⟨_, hencode⟩
  · intro parent hlive
    obtain ⟨id, a', hstart, _⟩ | ⟨e, hstart, ⟨rfl, _⟩ | ⟨_, hdead⟩⟩ := startNode_spec h parent
    · exact .inl ⟨id, a', hstart⟩
    · exact .inr hstart
    · exact absurd hlive hdead

/-- A root that was ended, then one on its node with two nodes under it, the second of which
threw on its option, and an end of an identifier that was never given out. -/
def twoKids : List ApiCall :=
  [.startTrace 0 [], .endTrace 128 false, .startTrace 0 [], .startTrace 128 [],
    .startTrace 127 ["TraceMinTimeMs:x"], .endTrace 5 false]

theorem trace_forest_two_kids :
    let w := (World.new 1500 id).run twoKids
    w.agent.pool.Live 128 ∧ IsRoot w.agent.pool 128 ∧
      ∃ t ∈ w.forest, t.root = 128 ∧ RootChain w.agent.pool 128 t.kids := by
  have hlive : ((World.new 1500 id).run twoKids).agent.pool.Live 128 := by decide +kernel
  have hroot : IsRoot ((World.new 1500 id).run twoKids).agent.pool 128 := by decide +kernel
  exact ⟨hlive, hroot, (trace_forest 1500 id twoKids).2.1 128 hlive hroot⟩

end PinpointAgent.Agent
