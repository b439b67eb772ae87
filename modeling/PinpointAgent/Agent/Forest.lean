import PinpointAgent.Agent.Agent
import PinpointAgent.NodePool.Forest
/-!
# The agent keeps a forest of traces

Every call of the public interface takes an agent whose pool holds a forest to one whose
pool holds the forest the call should leave: a start adds a node behind its trace, the end
of a root removes a trace, everything else leaves the links alone.
-/

namespace PinpointAgent.Agent

open Framework NodePool

section Equations

variable {a : Agent} {id parent : Int} {p q : PoolManager}

theorem referNode_of_live (h : a.pool.Live id) : referNode id a = .ok (a.pool.nodeAt id) a := by
  rw [referNode, PoolManager.getUsedNode_of_live h]

theorem referNode_of_dead (h : ¬a.pool.Live id) : ∃ e, referNode id a = .error e a ∧
    (e = .idZero ∨ e = .notAlive id) := by
  unfold referNode PoolManager.getUsedNode
  by_cases hzero : id = rootNode
  · exact ⟨.idZero, by simp only [if_pos hzero], .inl rfl⟩
  · have hdead : ¬a.pool.indexInUsedVec (id - 1) = true := h
    exact ⟨.notAlive id, by simp only [if_neg hzero, if_neg hdead], .inr rfl⟩

theorem finalState_referNode (id : Int) (a : Agent) : finalState (referNode id) a = a := by
  by_cases h : a.pool.Live id
  · exact finalState_of_ok (referNode_of_live h)
  · obtain ⟨e, he, _⟩ := referNode_of_dead h
    exact finalState_of_error he

theorem frames_referNode {γ : Type} {view : Agent → γ} (id : Int) : Frames view (referNode id) :=
  fun a => congrArg view (finalState_referNode id a)

theorem preserves_referNode {I : Agent → Prop} (id : Int) : Preserves I (referNode id) := by
  intro a h
  rwa [finalState_referNode]

theorem preserves_getWrapperTraceNode {I : Agent → Prop} (id flag : Int) :
    Preserves I (getWrapperTraceNode id flag) := by
  refine Preserves.bind (preserves_referNode id) ?_
  intro node
  split
  · exact Preserves.bind (preserves_referNode _) fun _ => Preserves.pure _
  · exact Preserves.pure _

private theorem startRoot_of_ready (hget : a.pool.getReadyNode = .ok (id, q)) :
    startRoot a = .ok id { a with
      pool := (q.modifyNode id (·.upgradeToRootNode a.agentType)).modifyNode id
        (·.startTrace (a.clock a.tick))
      tick := a.tick + 1 } := by
  have hnode : getNode a = .ok id { a with pool := q } := by simp only [getNode, hget]
  rw [startRoot, bind_of_ok _ hnode]
  rfl

private theorem startRoot_of_full {e : AgentError} (hget : a.pool.getReadyNode = .error e) :
    startRoot a = .error e a := by
  have hnode : getNode a = .error e a := by simp only [getNode, hget]
  rw [startRoot, bind_of_error _ hnode]

private theorem startChild_of_ready (hparent : a.pool.Live parent)
    (hroot : a.pool.Live (a.pool.nodeAt parent).rootId)
    (hget : a.pool.getReadyNode = .ok (id, q))
    (happend : ((q.modifyNode id (·.startTrace (a.clock a.tick))).modifyNode id
      (·.bindParentTrace (a.pool.nodeAt parent))).appendToRootTrace (a.pool.nodeAt parent).rootId id =
        (.ok (), p)) :
    startChild parent a = .ok id { a with pool := p, tick := a.tick + 1 } := by
  have hnode : getNode a = .ok id { a with pool := q } := by simp only [getNode, hget]
  rw [startChild, bind_of_ok _ (referNode_of_live hparent), bind_of_ok _ (referNode_of_live hroot),
    bind_of_ok _ hnode]
  let started : Agent := { a with
    pool := q.modifyNode id (·.startTrace (a.clock a.tick)), tick := a.tick + 1 }
  let bound : Agent := { started with
    pool := started.pool.modifyNode id (·.bindParentTrace (a.pool.nodeAt parent)) }
  have hstart : startTraceNode id { a with pool := q } = .ok () started := rfl
  have hbind : modifyNode id (·.bindParentTrace (a.pool.nodeAt parent)) started = .ok () bound := rfl
  have happ : appendToRootTrace (a.pool.nodeAt parent).rootId id bound =
      .ok () { a with pool := p, tick := a.tick + 1 } := by
    simp only [appendToRootTrace, bound, started, happend]
  rw [bind_of_ok _ hstart, bind_of_ok _ hbind, bind_of_ok _ happ]
  rfl

private theorem startChild_of_full {e : AgentError} (hparent : a.pool.Live parent)
    (hroot : a.pool.Live (a.pool.nodeAt parent).rootId) (hget : a.pool.getReadyNode = .error e) :
    startChild parent a = .error e a := by
  have hnode : getNode a = .error e a := by simp only [getNode, hget]
  rw [startChild, bind_of_ok _ (referNode_of_live hparent), bind_of_ok _ (referNode_of_live hroot),
    bind_of_error _ hnode]

end Equations

def view (a : Agent) : PoolView := a.pool.view

/-- A node without what the calls write onto it: members, marks, options and the time it took. -/
def bare (n : TraceNode) : TraceNode :=
  { n with value := [], setExp := false, expiredTime := -1, skipped := false, userOptionalSetting := [] }

/-- A view of the agent in which neither the clock nor what is written onto nodes shows. -/
class Blind {γ : Type} (view : Agent → γ) : Prop where
  tick : ∀ (a : Agent) (n : Nat), view { a with tick := n } = view a
  node : ∀ {a : Agent} {id : Int} {g : TraceNode → TraceNode},
    bare (g (a.pool.nodeAt id)) = bare (a.pool.nodeAt id) →
      view { a with pool := a.pool.modifyNode id g } = view a

private theorem shape_of_bare {n m : TraceNode} (h : bare n = bare m) : n.shape = m.shape := by
  have hshape : (bare n).shape = (bare m).shape := by rw [h]
  exact hshape

instance blindView : Blind Agent.view :=
  ⟨fun _ _ => rfl, fun h => PoolManager.view_modifyNode (shape_of_bare h)⟩

section Frames

variable {γ : Type} {view : Agent → γ}

theorem frames_getUnixTimeMs [Blind view] : Frames view getUnixTimeMs := fun a => Blind.tick a _

theorem frames_modifyNode [Blind view] {id : Int} {g : TraceNode → TraceNode} (h : ∀ n, bare (g n) = bare n) :
    Frames view (modifyNode id g) := by
  apply Moves.modify
  intro a
  exact Blind.node (h _)

theorem frames_appendAnnotationMember [Blind view] (id : Int) (key : String) (v : Json) :
    Frames view (appendAnnotationMember id key v) := by
  intro a
  cases hval : (a.pool.nodeAt id).value.append key v with
  | none =>
    have hrun : appendAnnotationMember id key v a = .error .notAppendable a := by
      simp only [appendAnnotationMember, hval]
    rw [finalState_of_error hrun]
  | some members =>
    have hrun : appendAnnotationMember id key v a = .ok () { a with
        pool := a.pool.modifyNode id fun n => { n with value := members } } := by
      simp only [appendAnnotationMember, hval]
    rw [finalState_of_ok hrun]
    exact Blind.node rfl

theorem frames_getWrapperTraceNode (id flag : Int) :
    Frames view (getWrapperTraceNode id flag) := by
  refine Frames.bind (frames_referNode id) ?_
  intro node
  split
  · exact Frames.bind (frames_referNode _) fun _ => Frames.pure _
  · exact Frames.pure _

theorem frames_notInternalKey (key : String) : Frames view (notInternalKey key) := by
  unfold notInternalKey
  split
  · exact Frames.throw _
  · exact Frames.pure _

theorem frames_annotateTraceV1 [Blind view] (id : Int) (key value : String) (flag : Int) :
    Frames view (annotateTraceV1 id key value flag) := by
  refine Frames.bind (frames_notInternalKey key) fun _ => ?_
  refine Frames.bind (frames_getWrapperTraceNode id flag) fun _ => ?_
  exact frames_modifyNode fun _ => rfl

theorem frames_annotateTraceV2 [Blind view] (id : Int) (key value : String) (flag : Int) :
    Frames view (annotateTraceV2 id key value flag) := by
  refine Frames.bind (frames_notInternalKey key) fun _ => ?_
  refine Frames.bind (frames_getWrapperTraceNode id flag) fun _ => ?_
  exact frames_appendAnnotationMember _ _ _

theorem frames_annotateErrorTrace [Blind view] (id : Int) (msg file : String) (line : Nat) :
    Frames view (annotateErrorTrace id msg file line) := by
  refine Frames.bind (frames_getWrapperTraceNode id 1) fun _ => ?_
  exact frames_modifyNode fun _ => rfl

theorem frames_annotateExceptionTrace [Blind view] (id : Int) (exception : String) :
    Frames view (annotateExceptionTrace id exception) := by
  refine Frames.bind (frames_getWrapperTraceNode id 0) fun _ => ?_
  refine Frames.bind (frames_modifyNode fun _ => rfl) fun _ => ?_
  refine Frames.bind (frames_getWrapperTraceNode id 1) fun _ => ?_
  refine Frames.bind (frames_modifyNode fun _ => rfl) fun _ => ?_
  refine Frames.bind frames_getUnixTimeMs fun _ => ?_
  refine Frames.bind Frames.get fun _ => ?_
  exact frames_modifyNode fun _ => rfl

theorem frames_addTraceContext (id : Int) (key value : String) :
    Frames Agent.view (addTraceContext id key value) := by
  refine Frames.bind (frames_getWrapperTraceNode id 1) fun _ => ?_
  apply Moves.modify
  intro a
  exact PoolManager.view_modifyNode rfl

theorem frames_setAsyncContext [Blind view] (id asyncNodeId nodeSequence : Int) :
    Frames view (setAsyncContext id asyncNodeId nodeSequence) := by
  refine Frames.bind (frames_getWrapperTraceNode id 1) fun _ => ?_
  exact frames_modifyNode fun _ => rfl

private theorem callbackLoop_eq (ret : Bool) (n : TraceNode) (cbs : List UserOption) :
    ∃ skipped, (TraceNode.callbackLoop ret n cbs).2 = { n with skipped := skipped } := by
  induction cbs generalizing ret n with
  | nil => exact ⟨n.skipped, rfl⟩
  | cons cb rest ih =>
    have hcallback : ∃ skipped, (n.runCallback cb).2 = { n with skipped := skipped } := by
      cases cb with
      | traceMinTimeMs min =>
        rw [TraceNode.runCallback]
        split
        · exact ⟨n.skipped, rfl⟩
        · exact ⟨true, rfl⟩
      | traceOnlyException => exact ⟨_, rfl⟩
    rw [TraceNode.callbackLoop]
    split
    · exact hcallback
    · obtain ⟨skipped, hskipped⟩ := hcallback
      rw [hskipped]
      exact ih _ _

theorem runUserOptionFunc_eq (n : TraceNode) : ∃ skipped, n.runUserOptionFunc = { n with skipped := skipped } :=
  callbackLoop_eq true n n.userOptionalSetting

theorem setNodeUserOption_eq (n : TraceNode) (opts : List String) :
    ∃ options, (n.setNodeUserOption opts).1 = { n with userOptionalSetting := options } := by
  induction opts generalizing n with
  | nil => exact ⟨n.userOptionalSetting, rfl⟩
  | cons opt rest ih =>
    unfold TraceNode.setNodeUserOption
    cases hopt : n.addUserOption opt with
    | none => exact ⟨n.userOptionalSetting, rfl⟩
    | some n' =>
      obtain ⟨added, rfl⟩ : ∃ options, n' = { n with userOptionalSetting := options } := by
        unfold TraceNode.addUserOption TraceNode.parseUserOption at hopt
        split at hopt
        · obtain ⟨min, _, rfl⟩ := Option.map_eq_some_iff.1 hopt
          exact ⟨_, rfl⟩
        · split at hopt
          · exact ⟨_, (Option.some.inj hopt).symm⟩
          · exact ⟨n.userOptionalSetting, (Option.some.inj hopt).symm⟩
      exact ih _

theorem finalState_setNodeUserOption (id : Int) (opts : List String) (a : Agent) :
    finalState (setNodeUserOption id opts) a = { a with
      pool := a.pool.modifyNode id fun _ => ((a.pool.nodeAt id).setNodeUserOption opts).1 } := by
  cases hflag : ((a.pool.nodeAt id).setNodeUserOption opts).2 <;>
    simp [finalState, setNodeUserOption, hflag]

theorem frames_setNodeUserOption [Blind view] (id : Int) (opts : List String) :
    Frames view (setNodeUserOption id opts) := by
  intro a
  rw [finalState_setNodeUserOption]
  obtain ⟨options, hoptions⟩ := setNodeUserOption_eq (a.pool.nodeAt id) opts
  rw [hoptions]
  exact Blind.node rfl

end Frames

/-- What `StartTrace` up to the options leaves: one more node, placed in its trace, and
every other node with at most its links changed. -/
structure Started (a : Agent) (f : Forest) (parent id : Int) (a' : Agent) : Prop where
  holds : Holds a'.pool (f.start parent id) []
  log : a'.pool.notAliveLog = a.pool.notAliveLog
  rest : a' = { a with pool := a'.pool, tick := a.tick + 1 }
  live_iff : ∀ other, a'.pool.Live other ↔ other = id ∨ a.pool.Live other
  dead : ¬a.pool.Live id
  kept : ∀ other, a.pool.Live other → ∃ next extra,
    a'.pool.nodeAt other = { a.pool.nodeAt other with next := next, rootNodeExtra := extra }
  node : ∃ n : TraceNode,
    parent = rootNode ∧
      a'.pool.nodeAt id = ((n.reset id).upgradeToRootNode a.agentType).startTrace (a.clock a.tick) ∨
    ∃ t ∈ f, parent ∈ t.nodes ∧ ∃ sequence,
      a'.pool.nodeAt id = { ((n.reset id).startTrace (a.clock a.tick)).bindParentTrace
          (a.pool.nodeAt parent) with
        rootId := t.root
        preTraceTime := (a.pool.nodeAt (a.pool.lastOrRoot t.root)).traceStartTime
        sequence := sequence }
  status : ∀ other, a.pool.Live other →
    (a'.pool.nodeAt other).rootNodeExtra.map (·.status) =
      (a.pool.nodeAt other).rootNodeExtra.map (·.status)
  parent : parent = rootNode ∨ a.pool.Live parent
  ready : ¬a.pool.Exhausted
  maxId : a.pool.maxId ≤ a'.pool.maxId ∧
    a'.pool.maxId ≤ max a.pool.maxId (poolMaxNodesLimit + cellSize)

section Starts

variable {a : Agent} {f : Forest}

private theorem startRoot_started {id : Int} {q : PoolManager} (h : Holds a.pool f [])
    (hget : a.pool.getReadyNode = .ok (id, q)) :
    Started a f rootNode id { a with
      pool := (q.modifyNode id (·.upgradeToRootNode a.agentType)).modifyNode id
        (·.startTrace (a.clock a.tick))
      tick := a.tick + 1 } := by
  have halloc := PoolManager.getReadyNode_spec h.alloc hget
  obtain ⟨n, hn⟩ := halloc.node
  have hnode : ∀ other, other ≠ id → ((q.modifyNode id (·.upgradeToRootNode a.agentType)).modifyNode id
      (·.startTrace (a.clock a.tick))).nodeAt other = q.nodeAt other := by
    intro other hne
    rw [PoolManager.nodeAt_modifyNode_of_ne _ hne, PoolManager.nodeAt_modifyNode_of_ne _ hne]
  refine ⟨?_, halloc.log, rfl, halloc.live_iff, halloc.dead, ?_, ⟨n, .inl ⟨rfl, ?_⟩⟩, ?_, .inl rfl,
    PoolManager.not_exhausted_of_ready hget, halloc.maxId⟩
  · rw [Forest.start, if_pos rfl]
    refine (h.allocate halloc).placeRoot ⟨rfl, rfl, rfl, rfl⟩ ?_ ?_
    · rw [PoolManager.shapeAt, PoolManager.nodeAt_modifyNode_self, PoolManager.nodeAt_modifyNode_self,
        hn]
      rfl
    · intro other _ hne
      rw [PoolManager.shapeAt, hnode other hne, PoolManager.shapeAt]
  · intro other hlive
    have hne : other ≠ id := fun heq => halloc.dead (heq ▸ hlive)
    refine ⟨(a.pool.nodeAt other).next, (a.pool.nodeAt other).rootNodeExtra, ?_⟩
    exact (hnode other hne).trans (halloc.kept other hlive)
  · rw [PoolManager.nodeAt_modifyNode_self, PoolManager.nodeAt_modifyNode_self, hn]
  · intro other hlive
    have hne : other ≠ id := fun heq => halloc.dead (heq ▸ hlive)
    rw [hnode other hne, halloc.kept other hlive]

private theorem startChild_started {t : Trace} {id parent : Int} {q : PoolManager}
    (h : Holds a.pool f []) (ht : t ∈ f) (hparent : parent ∈ t.nodes)
    (hget : a.pool.getReadyNode = .ok (id, q)) :
    ∃ p, ((q.modifyNode id (·.startTrace (a.clock a.tick))).modifyNode id
        (·.bindParentTrace (a.pool.nodeAt parent))).appendToRootTrace t.root id = (.ok (), p) ∧
      Started a f parent id { a with pool := p, tick := a.tick + 1 } := by
  have halloc := PoolManager.getReadyNode_spec h.alloc hget
  obtain ⟨n, hn⟩ := halloc.node
  have hne : ∀ other, a.pool.Live other → other ≠ id := fun other hlive heq =>
    halloc.dead (heq ▸ hlive)
  have hloose := ((h.allocate halloc).modifyLoose (·.startTrace (a.clock a.tick))).modifyLoose
    (·.bindParentTrace (a.pool.nodeAt parent))
  obtain ⟨bound, hbound⟩ : ∃ b, b = (q.modifyNode id (·.startTrace (a.clock a.tick))).modifyNode id
    (·.bindParentTrace (a.pool.nodeAt parent)) := ⟨_, rfl⟩
  rw [← hbound] at hloose ⊢
  have hkept : ∀ other, a.pool.Live other → bound.nodeAt other = a.pool.nodeAt other := by
    intro other hlive
    rw [hbound, PoolManager.nodeAt_modifyNode_of_ne _ (hne other hlive),
      PoolManager.nodeAt_modifyNode_of_ne _ (hne other hlive), halloc.kept other hlive]
  have hself : bound.nodeAt id =
      ((n.reset id).startTrace (a.clock a.tick)).bindParentTrace (a.pool.nodeAt parent) := by
    rw [hbound, PoolManager.nodeAt_modifyNode_self, PoolManager.nodeAt_modifyNode_self, hn]
  have hlast : bound.lastOrRoot t.root = a.pool.lastOrRoot t.root := by
    unfold PoolManager.lastOrRoot PoolManager.rootExtra
    rw [hkept t.root (h.live_of_mem ht (List.mem_cons_self ..))]
  have hlive : a.pool.Live parent := h.live_of_mem ht hparent
  obtain ⟨p, hp, hsame, hholds, happended⟩ :=
    Holds.appendToRootTrace n.sequence hloose ht hparent (by
      have hid := ((h.ok t ht).node_ids hparent).1
      rw [PoolManager.shapeAt, PoolManager.shapeAt, hself, hkept parent hlive]
      simp only [TraceNode.shape, TraceNode.bindParentTrace, TraceNode.startTrace, TraceNode.reset, hid,
        Option.map_none])
  have hblive : ∀ other, a.pool.Live other → bound.Live other := by
    intro other hother
    rw [hbound]
    exact (halloc.live_iff other).2 (.inr hother)
  refine ⟨p, hp, hholds, ?_, rfl, ?_, halloc.dead, ?_, ⟨n, .inr ⟨t, ht, hparent,
    (bound.rootExtra t.root).sequence, ?_⟩⟩, ?_, .inr hlive, PoolManager.not_exhausted_of_ready hget, ?_⟩
  · rw [hbound] at hsame
    exact hsame.log.trans halloc.log
  · intro other
    rw [hbound] at hsame
    exact hsame.live.trans (halloc.live_iff other)
  · intro other hother
    obtain ⟨next, extra, hnode⟩ := happended.kept other (hblive other hother) (hne other hother)
    refine ⟨next, extra, ?_⟩
    rw [hkept other hother] at hnode
    exact hnode
  · have hnode := happended.node
    rw [hself, hlast, hkept _ (h.live_of_mem ht (h.ok t ht).lastOrRoot_mem)] at hnode
    exact hnode
  · intro other hother
    rw [← hkept other hother]
    exact happended.status other (hblive other hother) (hne other hother)
  · rw [hbound] at hsame
    exact hsame.maxId ▸ halloc.maxId

/-- `StartTrace` up to the options either puts a node into its trace or changes nothing;
under a live parent only the size of the pool can stop it. -/
theorem startNode_spec (h : Holds a.pool f []) (parent : Int) :
    (∃ id a', startNode parent a = .ok id a' ∧ Started a f parent id a') ∨
    ∃ e, startNode parent a = .error e a ∧
      (e = .poolLimit ∧ a.pool.Exhausted ∨ parent ≠ rootNode ∧ ¬a.pool.Live parent) := by
  by_cases hinvalid : parent ≤ invalidNode
  · refine .inr ⟨.invalidNodeId, ?_, .inr ⟨?_, ?_⟩⟩
    · rw [startNode, if_pos hinvalid]
      rfl
    · simp only [invalidNode, rootNode] at hinvalid ⊢
      omega
    · intro hlive
      have := hlive.pos
      simp only [invalidNode] at hinvalid
      omega
  rw [startNode, if_neg hinvalid]
  by_cases hroot : parent = rootNode
  · rw [if_pos hroot, hroot]
    cases hget : a.pool.getReadyNode with
    | error e => exact .inr ⟨e, startRoot_of_full hget, .inl (PoolManager.getReadyNode_error hget)⟩
    | ok r =>
      obtain ⟨id, q⟩ := r
      exact .inl ⟨id, _, startRoot_of_ready hget, startRoot_started h hget⟩
  rw [if_neg hroot]
  by_cases hlive : a.pool.Live parent
  · obtain ⟨t, ht, hparent⟩ := h.exists_trace hlive
    have hrootId := ((h.ok t ht).node_ids hparent).2
    have hrootLive : a.pool.Live (a.pool.nodeAt parent).rootId := by
      rw [hrootId]
      exact h.live_of_mem ht (List.mem_cons_self ..)
    cases hget : a.pool.getReadyNode with
    | error e =>
      exact .inr ⟨e, startChild_of_full hlive hrootLive hget, .inl (PoolManager.getReadyNode_error hget)⟩
    | ok r =>
      obtain ⟨id, q⟩ := r
      obtain ⟨p, hp, hstarted⟩ := startChild_started h ht hparent hget
      rw [← hrootId] at hp
      exact .inl ⟨id, _, startChild_of_ready hlive hrootLive hget hp, hstarted⟩
  · obtain ⟨e, he, _⟩ := referNode_of_dead hlive
    refine .inr ⟨e, ?_, .inr ⟨hroot, hlive⟩⟩
    rw [startChild, bind_of_error _ he]

end Starts

section Ends

variable {a : Agent} {f : Forest} {t : Trace}

def EventAppendable (a : Agent) (root : Int) : Prop :=
  ((a.pool.nodeAt root).value.get "event").Appendable

instance decidableEventAppendable (a : Agent) (root : Int) : Decidable (a.EventAppendable root) :=
  inferInstanceAs (Decidable (Json.Appendable _))

def endedNode (a : Agent) (id : Int) : Agent := { a with
  pool := a.pool.modifyNode id (·.endTrace (a.clock a.tick)), tick := a.tick + 1 }

theorem endTraceNode_eq (id : Int) (a : Agent) : endTraceNode id a = .ok () (a.endedNode id) := rfl

theorem view_endedNode (a : Agent) (id : Int) : (a.endedNode id).view = a.view :=
  PoolManager.view_modifyNode (p := a.pool) (TraceNode.shape_endTrace _ _)

def forcedEnd (a : Agent) (id : Int) : Agent :=
  if (a.pool.nodeAt id).expiredTime = -1 then a.endedNode id else a

def appendedEvent (a : Agent) (root id : Int) : Agent := { a with
  pool := a.pool.modifyNode root fun n => { n with
    value := n.value.set "event" (.arr ((n.value.get "event").items ++ [.obj (a.pool.nodeAt id).value])) } }

def encodedKids (a : Agent) (root : Int) : List Int → Agent
  | [] => a
  | id :: rest => ((a.forcedEnd id).appendedEvent root id).encodedKids root rest

private theorem forceEnd_eq (id : Int) (a : Agent) :
    forceEnd id (a.pool.nodeAt id) a = .ok () (a.forcedEnd id) := by
  unfold forceEnd forcedEnd
  by_cases hended : (a.pool.nodeAt id).expiredTime = -1
  · rw [if_pos hended, if_pos hended, endTraceNode_eq]
  · rw [if_neg hended, if_neg hended]
    rfl

theorem nodeAt_forcedEnd_of_ne {id other : Int} (a : Agent) (hne : other ≠ id) :
    (a.forcedEnd id).pool.nodeAt other = a.pool.nodeAt other := by
  unfold forcedEnd endedNode
  split
  · rw [PoolManager.nodeAt_modifyNode_of_ne _ hne]
  · rfl

theorem view_forcedEnd (a : Agent) (id : Int) : (a.forcedEnd id).view = a.view := by
  unfold forcedEnd
  split
  · exact view_endedNode a id
  · rfl

theorem view_appendedEvent (a : Agent) (root id : Int) : (a.appendedEvent root id).view = a.view :=
  PoolManager.view_modifyNode (p := a.pool) rfl

private theorem eventAppendable_forcedEnd {root id : Int} (a : Agent) (hne : id ≠ root) :
    (a.forcedEnd id).EventAppendable root ↔ a.EventAppendable root := by
  rw [EventAppendable, nodeAt_forcedEnd_of_ne a hne.symm, EventAppendable]

private theorem eventAppendable_appendedEvent (a : Agent) (root id : Int) :
    (a.appendedEvent root id).EventAppendable root := by
  rw [EventAppendable, appendedEvent, PoolManager.nodeAt_modifyNode_self, Members.get_set_self]
  trivial

private theorem encodeNode_eq {root id : Int} (hlive : a.pool.Live id) (hne : id ≠ root) :
    encodeNode root id a =
      if a.EventAppendable root then
        .ok (a.pool.nodeAt id).next ((a.forcedEnd id).appendedEvent root id)
      else .error .notAppendable (a.forcedEnd id) := by
  have hget : (get : AgentM Agent) (a.forcedEnd id) = .ok (a.forcedEnd id) (a.forcedEnd id) := rfl
  rw [encodeNode, bind_of_ok _ (referNode_of_live hlive), bind_of_ok _ (forceEnd_eq id a),
    bind_of_ok _ hget]
  let event : Json := .obj ((a.forcedEnd id).pool.nodeAt id).value
  by_cases happ : a.EventAppendable root
  · have hstep : appendAnnotationMember root "event" event (a.forcedEnd id) =
        .ok () ((a.forcedEnd id).appendedEvent root id) := by
      have hsome := Members.append_of_appendable _ "event" event
        ((eventAppendable_forcedEnd a hne).2 happ)
      simp only [appendAnnotationMember, hsome]
      rfl
    rw [if_pos happ, bind_of_ok _ hstep]
    rfl
  · have hstep : appendAnnotationMember root "event" event (a.forcedEnd id) =
        .error .notAppendable (a.forcedEnd id) := by
      have hnone := (Members.append_eq_none_iff _ "event" event).2
        (fun hc => happ ((eventAppendable_forcedEnd a hne).1 hc))
      simp only [appendAnnotationMember, hnone]
    rw [if_neg happ, bind_of_error _ hstep]

theorem live_of_view {a b : Agent} {id : Int} (h : b.view = a.view) :
    b.pool.Live id ↔ a.pool.Live id :=
  (PoolManager.sameAllocation_of_view h).live

private theorem chain_of_view {a b : Agent} {next : Int} {ids : List Int} (h : b.view = a.view)
    (hchain : Chain a.pool next ids) : Chain b.pool next ids := by
  apply hchain.congr
  intro k
  exact congrArg Shape.next (congrFun (congrArg PoolView.shape h) (k - 1))

/-- The loop over the children visits live nodes only and ends: all children are encoded, or
the first one meets an `event` member of the root that is neither null nor an array. -/
theorem encodeLoop_eq {root next : Int} {rest : List Int} {fuel : Nat}
    (hchain : Chain a.pool next rest) (hlive : ∀ id ∈ rest, a.pool.Live id ∧ id ≠ root)
    (hfuel : rest.length ≤ fuel) :
    encodeLoop root fuel next a =
      if rest = [] ∨ a.EventAppendable root then .ok () (a.encodedKids root rest)
      else .error .notAppendable (a.forcedEnd next) := by
  induction rest generalizing a fuel next with
  | nil =>
    have hnext : next = invalidNode := hchain
    rw [if_pos (.inl rfl)]
    cases fuel <;> rw [encodeLoop, if_pos hnext] <;> rfl
  | cons k rest ih =>
    obtain ⟨fuel, rfl⟩ : ∃ n, fuel = n + 1 := ⟨fuel - 1, by simp at hfuel; omega⟩
    obtain ⟨rfl, hrest⟩ := hchain
    obtain ⟨hnext, hne⟩ := hlive next (List.mem_cons_self ..)
    have hnode := encodeNode_eq hnext hne
    rw [encodeLoop, if_neg hnext.ne_invalidNode]
    by_cases happ : a.EventAppendable root
    · rw [if_pos happ] at hnode
      have hview : ((a.forcedEnd next).appendedEvent root next).view = a.view :=
        (view_appendedEvent _ _ _).trans (view_forcedEnd _ _)
      rw [if_pos (.inr happ), bind_of_ok _ hnode,
        ih (chain_of_view hview hrest) (fun id hid =>
          ⟨(live_of_view hview).2 (hlive id (List.mem_cons_of_mem _ hid)).1,
            (hlive id (List.mem_cons_of_mem _ hid)).2⟩) (Nat.le_of_succ_le_succ hfuel),
        if_pos (.inr (eventAppendable_appendedEvent _ root next))]
      rfl
    · rw [if_neg happ] at hnode
      rw [if_neg (not_or.2 ⟨List.cons_ne_nil _ _, happ⟩), bind_of_error _ hnode]

theorem view_encodedKids (root : Int) (ids : List Int) (a : Agent) :
    (a.encodedKids root ids).view = a.view := by
  induction ids generalizing a with
  | nil => rfl
  | cons id rest ih =>
    exact (ih _).trans ((view_appendedEvent _ _ _).trans (view_forcedEnd _ _))

theorem spans_encodedKids (root : Int) (ids : List Int) (a : Agent) :
    (a.encodedKids root ids).spans = a.spans := by
  induction ids generalizing a with
  | nil => rfl
  | cons id ids ih =>
    have hforced : (a.forcedEnd id).spans = a.spans := by
      unfold Agent.forcedEnd
      split <;> rfl
    exact (ih _).trans hforced

/-- What decides, before `EndTrace` of the root of `t`, whether it gets to `FreeNodeTree`. -/
def Deliverable (a : Agent) (t : Trace) (raises : Bool) : Prop :=
  (a.pool.rootExtra t.root).status ≠ tracePass ∨
    raises = false ∧ (t.kids = [] ∨ a.EventAppendable t.root)

instance decidableDeliverable (a : Agent) (t : Trace) (raises : Bool) :
    Decidable (a.Deliverable t raises) :=
  inferInstanceAs (Decidable (_ ∨ _))

theorem get_endMembers_event (n : TraceNode) (now : Nat) :
    (n.endMembers now).get "event" = n.value.get "event" := by
  unfold TraceNode.endMembers
  split <;> split <;> simp

def encodedRoot (a : Agent) (t : Trace) : Agent := { a.encodedKids t.root t.kids with
  pool := (a.encodedKids t.root t.kids).pool.modifyNode t.root (·.runUserOptionFunc) }

theorem view_encodedRoot (a : Agent) (t : Trace) : (a.encodedRoot t).view = a.view := by
  refine (PoolManager.view_modifyNode ?_).trans (view_encodedKids t.root t.kids a)
  obtain ⟨skipped, hskipped⟩ := runUserOptionFunc_eq ((a.encodedKids t.root t.kids).pool.nodeAt t.root)
  rw [hskipped]
  rfl

theorem encodeTraceToJsonSpan_eq (h : Holds a.pool f []) (ht : t ∈ f) :
    encodeTraceToJsonSpan t.root a =
      if t.kids = [] ∨ a.EventAppendable t.root then
        .ok ((a.encodedRoot t).pool.nodeAt t.root).value (a.encodedRoot t)
      else .error .notAppendable (a.forcedEnd (a.pool.nodeAt t.root).next) := by
  have hok := h.ok t ht
  obtain ⟨_, _, _, hnodup, _⟩ := h.exists_split ht
  have hroot := hok.isRootNode_root
  have hlen : t.kids.length ≤ a.pool.maxId.toNat + 1 := by
    have := (h.detach ht).length_le
    simp only [List.length_append, Trace.nodes, List.length_cons] at this
    omega
  have hkids : ∀ id ∈ t.kids, a.pool.Live id ∧ id ≠ t.root := fun id hid =>
    ⟨h.live_of_mem ht (List.mem_cons_of_mem _ hid), fun heq => (List.nodup_cons.1 hnodup).1 (heq ▸ hid)⟩
  have hloop := encodeLoop_eq hok.chain hkids hlen
  have hget : (get : AgentM Agent) a = .ok a a := rfl
  rw [encodeTraceToJsonSpan, bind_of_ok _ hget, if_pos hroot]
  by_cases hcond : t.kids = [] ∨ a.EventAppendable t.root
  · rw [if_pos hcond] at hloop ⊢
    rw [bind_of_ok _ hloop]
    rfl
  · rw [if_neg hcond] at hloop ⊢
    rw [bind_of_error _ hloop]

def handedOver (a : Agent) (t : Trace) : Agent :=
  let encoded := (a.endedNode t.root).encodedRoot t
  { encoded with spans := encoded.spans ++ [(encoded.pool.nodeAt t.root).value] }

private theorem view_handedOver (a : Agent) (t : Trace) : (a.handedOver t).view = a.view :=
  (view_encodedRoot _ t).trans (view_endedNode a t.root)

/-- The four ways `EndTrace` of a root can go before `FreeNodeTree`. -/
theorem deliverRoot_eq (h : Holds a.pool f []) (ht : t ∈ f) (raises : Bool) :
    deliverRoot t.root raises a =
      if (a.pool.rootExtra t.root).status ≠ tracePass then .ok () a
      else if t.kids = [] ∨ a.EventAppendable t.root then
        if raises then .error .sendFailed (a.handedOver t) else .ok () (a.handedOver t)
      else .error .notAppendable ((a.endedNode t.root).forcedEnd (a.pool.nodeAt t.root).next) := by
  have hget : (get : AgentM Agent) a = .ok a a := rfl
  rw [deliverRoot, bind_of_ok _ hget]
  by_cases hpass : (a.pool.rootExtra t.root).status = tracePass
  swap
  · rw [if_pos hpass, if_neg hpass]
    rfl
  have hview := view_endedNode a t.root
  have h₁ : Holds (a.endedNode t.root).pool f [] := h.congr hview
  have hevent : (a.endedNode t.root).EventAppendable t.root ↔ a.EventAppendable t.root := by
    rw [EventAppendable, endedNode, PoolManager.nodeAt_modifyNode_self,
      (TraceNode.endTrace_fields _ _).2.2.2, get_endMembers_event, EventAppendable]
  have hnext : ((a.endedNode t.root).pool.nodeAt t.root).next = (a.pool.nodeAt t.root).next :=
    congrArg Shape.next (congrFun (congrArg PoolView.shape hview) (t.root - 1))
  have hencode := encodeTraceToJsonSpan_eq h₁ ht
  rw [hnext] at hencode
  rw [if_pos hpass, if_neg (not_not.2 hpass), bind_of_ok _ (endTraceNode_eq t.root a), sendSpanTrace,
    bind_of_ok _ (referNode_of_live (h₁.live_of_mem ht (List.mem_cons_self ..)))]
  by_cases hcond : t.kids = [] ∨ a.EventAppendable t.root
  · rw [if_pos (hcond.imp_right hevent.2)] at hencode
    rw [if_pos hcond, bind_of_ok _ hencode]
    cases raises <;> rfl
  · rw [if_neg (fun hc => hcond (hc.imp_right hevent.1))] at hencode
    rw [if_neg hcond, bind_of_error _ hencode]

private theorem deliverRoot_spec (h : Holds a.pool f []) (ht : t ∈ f) (raises : Bool) :
    ∃ a', a'.view = a.view ∧
      if a.Deliverable t raises then deliverRoot t.root raises a = .ok () a'
      else ∃ e, deliverRoot t.root raises a = .error e a' ∧ (e = .notAppendable ∨ e = .sendFailed) := by
  have hdeliver := deliverRoot_eq h ht raises
  have hblocked := (view_forcedEnd (a.endedNode t.root) (a.pool.nodeAt t.root).next).trans
    (view_endedNode a t.root)
  by_cases hpass : (a.pool.rootExtra t.root).status = tracePass
  swap
  · rw [if_pos hpass] at hdeliver
    exact ⟨a, rfl, by rw [if_pos (.inl hpass)]; exact hdeliver⟩
  rw [if_neg (not_not.2 hpass)] at hdeliver
  by_cases hcond : t.kids = [] ∨ a.EventAppendable t.root
  swap
  · have hnot : ¬a.Deliverable t raises := by simp [Deliverable, hpass, hcond]
    rw [if_neg hcond] at hdeliver
    exact ⟨_, hblocked, by rw [if_neg hnot]; exact ⟨_, hdeliver, .inl rfl⟩⟩
  rw [if_pos hcond] at hdeliver
  refine ⟨a.handedOver t, view_handedOver a t, ?_⟩
  cases raises with
  | false =>
    rw [if_pos (.inr ⟨rfl, hcond⟩)]
    exact hdeliver
  | true =>
    have hnot : ¬a.Deliverable t true := by simp [Deliverable, hpass]
    rw [if_neg hnot]
    exact ⟨_, hdeliver, .inr rfl⟩

/-- `EndTrace` of a root frees its tree, or throws on the way and frees nothing. -/
theorem endTrace_root (h : Holds a.pool f []) (ht : t ∈ f) (raises : Bool) :
    if a.Deliverable t raises then
      ∃ b q, deliverRoot t.root raises a = .ok () b ∧ b.view = a.view ∧
        endTrace t.root raises a = .ok rootNode { b with pool := q } ∧
        Holds q (f.finish t.root) [] ∧ q.maxId = a.pool.maxId ∧
        q.nodeIndexVec = b.pool.nodeIndexVec ∧ q.notAliveLog = a.pool.notAliveLog
    else ∃ e b, deliverRoot t.root raises a = .error e b ∧ b.view = a.view ∧
      endTrace t.root raises a = .error e b ∧ (e = .notAppendable ∨ e = .sendFailed) := by
  have hok := h.ok t ht
  have hroot := hok.isRootNode_root
  rw [endTrace, bind_of_ok _ (referNode_of_live (h.live_of_mem ht (List.mem_cons_self ..))),
    if_pos hroot, endRoot]
  obtain ⟨a₁, hview, hdeliver⟩ := deliverRoot_spec h ht raises
  have hsame := PoolManager.sameAllocation_of_view hview
  split at hdeliver
  · next hcond =>
    obtain ⟨q, hfree, hholds, hmax, hnodes, hlog⟩ := (h.congr hview).freeNodeTree ht
    have hstep : freeNodeTree t.root a₁ = .ok () { a₁ with pool := q } := by
      simp only [freeNodeTree, hfree]
    rw [if_pos hcond]
    refine ⟨a₁, q, hdeliver, hview, ?_, hholds, hmax.trans hsame.maxId, hnodes, hlog.trans hsame.log⟩
    rw [bind_of_ok _ hdeliver, bind_of_ok _ hstep]
    rfl
  · next hcond =>
    obtain ⟨e, he, hkind⟩ := hdeliver
    rw [if_neg hcond]
    exact ⟨e, a₁, he, hview, bind_of_error _ he, hkind⟩

theorem endTrace_child {id : Int} (hlive : a.pool.Live id)
    (hroot : ¬(a.pool.nodeAt id).isRootNode = true) (raises : Bool) :
    endTrace id raises a = .ok (a.pool.nodeAt id).parentId (a.endedNode id) := by
  rw [endTrace, bind_of_ok _ (referNode_of_live hlive), if_neg hroot, bind_of_ok _ (endTraceNode_eq id a)]
  rfl

theorem endTrace_other {id : Int} (h : Holds a.pool f []) (hid : ∀ t ∈ f, t.root ≠ id) (raises : Bool) :
    (finalState (endTrace id raises) a).view = a.view := by
  by_cases hlive : a.pool.Live id
  · obtain ⟨t, ht, hmem⟩ := h.exists_trace hlive
    have hroot : ¬(a.pool.nodeAt id).isRootNode = true := fun hisRoot =>
      hid t ht (((h.ok t ht).isRootNode_iff hmem).1 hisRoot)
    rw [finalState_of_ok (endTrace_child hlive hroot raises)]
    exact view_endedNode a id
  · obtain ⟨e, he, _⟩ := referNode_of_dead hlive
    rw [finalState_of_error (show endTrace id raises a = .error e a by
      rw [endTrace, bind_of_error _ he])]

theorem changeTraceStatus_eq {id : Int} (hlive : a.pool.Live id)
    (hroot : a.pool.Live (a.pool.nodeAt id).rootId) (status : Int) :
    changeTraceStatus id status a = .ok (a.pool.rootExtra (a.pool.nodeAt id).rootId).status { a with
      pool := a.pool.modifyNode (a.pool.nodeAt id).rootId fun n => { n with
        rootNodeExtra := some { a.pool.rootExtra (a.pool.nodeAt id).rootId with status := status } } } := by
  rw [changeTraceStatus, bind_of_ok _ (referNode_of_live hlive), bind_of_ok _ (referNode_of_live hroot)]
  rfl

theorem changeTraceStatus_view (h : Holds a.pool f []) (id status : Int) :
    (finalState (changeTraceStatus id status) a).view = a.view := by
  by_cases hlive : a.pool.Live id
  · obtain ⟨t, ht, hmem⟩ := h.exists_trace hlive
    have hok := h.ok t ht
    have hrootId := (hok.node_ids hmem).2
    have hrootLive : a.pool.Live (a.pool.nodeAt id).rootId := by
      rw [hrootId]
      exact h.live_of_mem ht (List.mem_cons_self ..)
    rw [finalState_of_ok (changeTraceStatus_eq hlive hrootLive status), hrootId]
    apply PoolManager.view_modifyNode
    obtain ⟨hlast, hsequence⟩ := hok.rootExtra_eq
    have hshape := hok.root
    simp only [PoolManager.shapeAt, TraceNode.shape, Trace.rootShape, Shape.mk.injEq] at hshape ⊢
    simp only [Option.map_some, hlast, hsequence, hshape.2.2.2.2.2.2.2, and_self]
  · obtain ⟨e, he, _⟩ := referNode_of_dead hlive
    rw [finalState_of_error (show changeTraceStatus id status a = .error e a by
      rw [changeTraceStatus, bind_of_error _ he])]

end Ends

section Exceptions

variable {a : Agent} {f : Forest} {t : Trace} {id : Int}

theorem getWrapperTraceNode_current (h : a.pool.Live id) :
    getWrapperTraceNode id 0 a = .ok id a := by
  rw [getWrapperTraceNode, bind_of_ok _ (referNode_of_live h), if_neg (by decide)]
  rfl

theorem getWrapperTraceNode_root {root : Int} (h : a.pool.Live id)
    (hroot : (a.pool.nodeAt id).rootId = root) (hlive : a.pool.Live root) :
    getWrapperTraceNode id 1 a = .ok root a := by
  rw [← hroot] at hlive ⊢
  rw [getWrapperTraceNode, bind_of_ok _ (referNode_of_live h), if_pos rfl,
    bind_of_ok _ (referNode_of_live hlive)]
  rfl

def markException (n : TraceNode) : TraceNode := { n with setExp := true }

theorem annotateExceptionTrace_of_mem (h : Holds a.pool f []) (ht : t ∈ f) (hid : id ∈ t.nodes)
    (exception : String) :
    annotateExceptionTrace id exception a = .ok () { a with
      pool := ((a.pool.modifyNode id markException).modifyNode t.root markException).modifyNode id
        (·.addAnnotationMember "EXP_V2" (.obj (exceptionMembers exception (a.clock a.tick)
          (a.pool.nodeAt t.root).traceStartTime)))
      tick := a.tick + 1 } := by
  have hlive := h.live_of_mem ht hid
  have hrootLive := h.live_of_mem ht (List.mem_cons_self ..)
  let a₁ : Agent := { a with pool := a.pool.modifyNode id markException }
  let a₂ : Agent := { a₁ with pool := a₁.pool.modifyNode t.root markException }
  have hmark : modifyNode id ({ · with setExp := true }) a = .ok () a₁ := rfl
  have hmark' : modifyNode t.root ({ · with setExp := true }) a₁ = .ok () a₂ := rfl
  have hrootId : (a₁.pool.nodeAt id).rootId = t.root := by
    simp only [a₁, PoolManager.nodeAt_modifyNode_self, markException, ((h.ok t ht).node_ids hid).2]
  have hstart : (a₂.pool.nodeAt t.root).traceStartTime = (a.pool.nodeAt t.root).traceStartTime := by
    simp only [a₂, a₁, PoolManager.nodeAt_modifyNode_self, markException]
    by_cases heq : t.root = id
    · rw [heq, PoolManager.nodeAt_modifyNode_self]
      rfl
    · rw [PoolManager.nodeAt_modifyNode_of_ne _ heq]
  rw [annotateExceptionTrace, bind_of_ok _ (getWrapperTraceNode_current hlive), bind_of_ok _ hmark,
    bind_of_ok _ (getWrapperTraceNode_root (a := a₁) hlive hrootId hrootLive), bind_of_ok _ hmark']
  have hclock : getUnixTimeMs a₂ = .ok (a.clock a.tick) { a₂ with tick := a.tick + 1 } := rfl
  have hget : (get : AgentM Agent) { a₂ with tick := a.tick + 1 } =
      .ok { a₂ with tick := a.tick + 1 } { a₂ with tick := a.tick + 1 } := rfl
  rw [bind_of_ok _ hclock, bind_of_ok _ hget]
  simp only [hstart]
  rfl

end Exceptions

end PinpointAgent.Agent
