import PinpointAgent.Agent.FailedStart
import PinpointAgent.Agent.ParentWalk
import PinpointAgent.Framework.Interleaving

/-!
# The current trace of a Python thread

The Python extension keeps the id of the current node in a thread-local variable: `start_trace()`,
`end_trace()` and `force_flush_trace()` without arguments work on that node and store what they get
back, `E_INVALID_NODE` included. From `E_INVALID_NODE` no later call without arguments finds its way
back: it is the parent of no node, and neither an end nor a flush replaces it.
-/

namespace PinpointAgent.Agent

open Framework NodePool

/-- The agent and `per_thread_current_id` of the thread that uses it. -/
structure PyThread where
  agent : Agent
  perThreadId : Int

/-- The calls without arguments; `raises` says whether handing over a span throws. -/
inductive PyCall where
  | startTrace
  | endTrace (raises : Bool)
  | forceFlushTrace (raises : Bool)

namespace PyThread

def new (agentType : Int) (clock : Nat → Nat) : PyThread := ⟨.new agentType clock, rootNode⟩

def startThreadLocalTrace (s : PyThread) : Int × PyThread :=
  let r := s.agent.pinpointStartTraceV1 s.perThreadId []
  (r.1, ⟨r.2, r.1⟩)

def endThreadLocalTrace (s : PyThread) (raises : Bool) : Int × PyThread :=
  let r := s.agent.pinpointEndTrace s.perThreadId raises
  (r.1, ⟨r.2, r.1⟩)

def forceFlushSpan (s : PyThread) (raises : Bool) : Bool × PyThread :=
  let r := s.agent.pinpointForceEndTrace s.perThreadId raises
  if r.1 ≠ rootNode then (false, ⟨r.2, s.perThreadId⟩)
  else if s.perThreadId ≠ rootNode ∧ r.2.pinpointTraceIsRoot s.perThreadId = -1 then
    (true, ⟨r.2, rootNode⟩)
  else (true, ⟨r.2, s.perThreadId⟩)

def next (s : PyThread) : PyCall → PyThread
  | .startTrace => s.startThreadLocalTrace.2
  | .endTrace raises => (s.endThreadLocalTrace raises).2
  | .forceFlushTrace raises => (s.forceFlushSpan raises).2

def step (s : PyThread) (call : PyCall) : Option PyThread := some (s.next call)

def Usable (s : PyThread) : Prop := s.perThreadId = rootNode ∨ s.agent.pool.Live s.perThreadId

/-- There is a node to hand out for a start, and an end finds a current node, whose span, if it is a
passing root, is handed over without an exception. -/
def Meets (s : PyThread) : PyCall → Prop
  | .startTrace => ¬s.agent.pool.Exhausted
  | .endTrace raises => s.perThreadId ≠ rootNode ∧
      ((s.agent.pool.nodeAt s.perThreadId).isRootNode = true →
        (s.agent.pool.rootExtra s.perThreadId).status = tracePass → raises = false)
  | .forceFlushTrace _ => True

instance decidableUsable (s : PyThread) : Decidable s.Usable := inferInstanceAs (Decidable (_ ∨ _))

instance decidableMeets (s : PyThread) : (call : PyCall) → Decidable (s.Meets call)
  | .startTrace => inferInstanceAs (Decidable (¬ _))
  | .endTrace _ => inferInstanceAs (Decidable (_ ∧ (_ → _ → _)))
  | .forceFlushTrace _ => isTrue trivial

end PyThread

structure Sound (a : Agent) (f : Forest) : Prop where
  ok : World.Ok ⟨a, f⟩
  eventsOpen : a.EventsOpen

section Sound

variable {a : Agent} {f : Forest} {t : Trace} {id : Int}

theorem Sound.holds (h : a.Sound f) : Holds a.pool f [] := h.ok.holds

theorem sound_new (agentType : Int) (clock : Nat → Nat) : (new agentType clock).Sound [] := by
  refine ⟨World.ok_new agentType clock, fun id hlive => ?_⟩
  simpa using (Holds.new.live_iff id).1 hlive

theorem Sound.after (h : a.Sound f) {call : ApiCall} (hcall : ¬call.Collides) :
    (a.after call).Sound (World.nextForest ⟨a, f⟩ call) :=
  ⟨h.ok.step call, eventsOpen_after h.holds h.eventsOpen hcall⟩

theorem Sound.endedAlong (h : a.Sound f) (path : List Int) : (a.endedAlong path).Sound f := by
  have hview := view_endedAlong a path
  have hlog : (a.endedAlong path).pool.notAliveLog = a.pool.notAliveLog :=
    (PoolManager.sameAllocation_of_view hview).log
  exact ⟨⟨h.holds.congr hview, hlog.trans h.ok.log⟩, eventsOpen_endedAlong h.eventsOpen path⟩

theorem pinpointStartTraceV1_agent (a : Agent) (parentId : Int) (opts : List String) :
    (a.pinpointStartTraceV1 parentId opts).2 = a.after (.startTrace parentId opts) := by
  rw [pinpointStartTraceV1, after, finalState]
  cases startTrace parentId opts a with
  | ok id a' => rfl
  | error e a' => rfl

/-- What a start without options leaves when it takes the node `id`. -/
structure Taken (a : Agent) (f : Forest) (parentId id : Int) (a' : Agent) : Prop where
  sound : a'.Sound (f.start parentId id)
  live_iff : ∀ other, a'.pool.Live other ↔ other = id ∨ a.pool.Live other
  dead : ¬a.pool.Live id
  parent : parentId = rootNode ∨ a.pool.Live parentId
  ready : ¬a.pool.Exhausted
  maxId : a.pool.maxId ≤ a'.pool.maxId ∧
    a'.pool.maxId ≤ max a.pool.maxId (poolMaxNodesLimit + cellSize)
  status : ∀ root, a.pool.Live root → (a'.pool.rootExtra root).status = (a.pool.rootExtra root).status
  newStatus : parentId = rootNode → (a'.pool.rootExtra id).status = tracePass

theorem Taken.live {parentId : Int} {a' : Agent} (h : Taken a f parentId id a') : a'.pool.Live id :=
  (h.live_iff id).2 (.inl rfl)

theorem pinpointStartTrace_spec (h : a.Sound f) (parentId : Int) :
    (∃ id a', a.pinpointStartTraceV1 parentId [] = (id, a') ∧ Taken a f parentId id a') ∨
      a.pinpointStartTraceV1 parentId [] = (invalidNode, a) ∧
        (a.pool.Exhausted ∨ parentId ≠ rootNode ∧ ¬a.pool.Live parentId) := by
  obtain ⟨id, a', hstart, hstarted⟩ | ⟨e, hstart, hwhy⟩ := startNode_spec h.holds parentId
  · left
    have hid : (a.pinpointStartTraceV1 parentId []).1 = id :=
      startTraceV1_of_ok hstart (.inr fun _ hopt => absurd hopt List.not_mem_nil)
    have hclear : ¬(ApiCall.startTrace parentId []).Collides := nofun
    have hsound := h.after hclear
    rw [World.nextForest_startTrace (w := ⟨a, f⟩) [] hstart] at hsound
    have hafter := World.after_startTrace [] hstart
    rw [ite_self, finalState_setNodeUserOption] at hafter
    have hview := World.view_after_startTrace [] hstart
    have hnode (other : Int) : (a.after (.startTrace parentId [])).pool.nodeAt other = a'.pool.nodeAt other := by
      rw [hafter]
      by_cases heq : other = id
      · rw [heq, PoolManager.nodeAt_modifyNode_self]
        rfl
      · rw [PoolManager.nodeAt_modifyNode_of_ne _ heq]
    have hextra (root : Int) : (a.after (.startTrace parentId [])).pool.rootExtra root = a'.pool.rootExtra root := by
      rw [PoolManager.rootExtra, hnode, PoolManager.rootExtra]
    refine ⟨id, a.after (.startTrace parentId []), ?_, hsound, ?_, hstarted.dead, hstarted.parent, hstarted.ready, ?_, ?_, ?_⟩
    · rw [← hid, ← pinpointStartTraceV1_agent]
    · intro other
      rw [live_of_view hview, hstarted.live_iff]
    · rw [hafter]
      exact hstarted.maxId
    · intro root hlive
      rw [hextra]
      have hstatus := hstarted.status root hlive
      unfold PoolManager.rootExtra
      cases hold : (a.pool.nodeAt root).rootNodeExtra <;> cases hnew : (a'.pool.nodeAt root).rootNodeExtra <;>
        simp_all
    · intro hroot
      rw [hextra, PoolManager.rootExtra]
      obtain ⟨n, ⟨-, hn⟩ | ⟨t, ht, hparent, -⟩⟩ := hstarted.node
      · rw [hn]
        rfl
      · exact absurd hroot (h.holds.live_of_mem ht hparent).ne_rootNode
  · right
    exact ⟨startTraceV1_of_error hstart, hwhy.imp_left And.right⟩

theorem pinpointEndTrace_dead (hdead : ¬a.pool.Live id) (raises : Bool) :
    a.pinpointEndTrace id raises = (invalidNode, a) := by
  obtain ⟨e, he, _⟩ := referNode_of_dead hdead
  have hend : endTrace id raises a = .error e a := by rw [endTrace, bind_of_error _ he]
  simp only [pinpointEndTrace, hend]

theorem pinpointEndTrace_child (h : Holds a.pool f []) (ht : t ∈ f) (hid : id ∈ t.nodes) (hne : id ≠ t.root)
    (raises : Bool) :
    a.pinpointEndTrace id raises = (a.parentOf id, a.endedNode id) ∧ a.parentOf id ∈ t.nodes := by
  have hend := endTrace_child (h.live_of_mem ht hid) (not_isRootNode h ht hid hne) raises
  refine ⟨by simp only [pinpointEndTrace, hend, parentOf], ?_⟩
  obtain ⟨i, hi⟩ := List.mem_iff_getElem?.1 ((List.mem_cons.1 hid).resolve_left hne)
  obtain ⟨parent, hparent, hshape⟩ := (h.ok t ht).kid i id hi
  have hparentId : a.parentOf id = parent := congrArg Shape.parentId hshape
  rwa [hparentId]

private theorem pinpointTraceIsRoot_dead (hdead : ¬a.pool.Live id) : a.pinpointTraceIsRoot id = -1 := by
  obtain ⟨e, he, _⟩ := referNode_of_dead hdead
  have hroot : isRootTrace id a = .error e a := by rw [isRootTrace, bind_of_error _ he]
  unfold pinpointTraceIsRoot
  rw [hroot]
  split <;> rfl

theorem spans_handedOver (a : Agent) (t : Trace) : ∃ span, (a.handedOver t).spans = a.spans ++ [span] := by
  have hspans : ((a.endedNode t.root).encodedRoot t).spans = a.spans :=
    spans_encodedKids t.root t.kids (a.endedNode t.root)
  exact ⟨_, congrArg (· ++ [_]) hspans⟩

/-- The tree of a root is gone, and the span of a passing trace was handed over. -/
structure Freed (a : Agent) (f : Forest) (root : Int) (a' : Agent) : Prop where
  sound : a'.Sound (f.finish root)
  maxId : a'.pool.maxId = a.pool.maxId
  handed : (a.pool.rootExtra root).status = tracePass → ∃ span, a'.spans = a.spans ++ [span]

theorem endTrace_root_sound (h : a.Sound f) (ht : t ∈ f) (raises : Bool) :
    if (a.pool.rootExtra t.root).status = tracePass → raises = false then
      ∃ a', endTrace t.root raises a = .ok rootNode a' ∧ Freed a f t.root a'
    else ∃ e a', endTrace t.root raises a = .error e a' ∧ a'.Sound f ∧ a'.view = a.view := by
  have hspec := endTrace_root h.holds ht raises
  have hclear : ¬(ApiCall.endTrace t.root raises).Collides := nofun
  have hsound := h.after hclear
  have hiff := deliverable_iff_of_open h.holds ht h.eventsOpen raises
  by_cases hdeliver : a.Deliverable t raises
  · rw [if_pos hdeliver] at hspec
    obtain ⟨b, q, hb, -, hend, -, hmax, -⟩ := hspec
    rw [if_pos (hiff.1 hdeliver)]
    simp only [World.nextForest, hend, Agent.after, finalState_of_ok hend] at hsound
    refine ⟨_, hend, hsound, hmax, fun hpass => ?_⟩
    have hevent := h.eventsOpen t.root (h.holds.live_of_mem ht List.mem_cons_self)
    rw [deliverRoot_eq h.holds ht, if_neg (not_not.2 hpass), if_pos (.inr hevent), hiff.1 hdeliver hpass] at hb
    cases hb
    exact spans_handedOver a t
  · rw [if_neg hdeliver] at hspec
    obtain ⟨e, b, -, hview, hend, -⟩ := hspec
    rw [if_neg fun himp => hdeliver (hiff.2 himp)]
    simp only [World.nextForest, hend, Agent.after, finalState_of_error hend] at hsound
    exact ⟨e, b, hend, hsound, hview⟩

private theorem forceEndLoop_ascent (h : Holds a.pool f []) (ht : t ∈ f) (raises : Bool) {path : List Int}
    (hpath : Ascends a.parentOf t.root id path) (hmem : ∀ k ∈ path, k ∈ t.nodes) (fuel : Nat) :
    forceEndLoop raises (path.length + fuel) id a = forceEndLoop raises fuel t.root (a.endedAlong path) := by
  induction path generalizing a id with
  | nil =>
    have hroot : id = t.root := hpath
    rw [hroot, List.length_nil, Nat.zero_add]
    rfl
  | cons k path ih =>
    obtain ⟨rfl, hne, hrest⟩ := hpath
    have hin : id ∈ t.nodes := hmem id List.mem_cons_self
    have hlive := h.live_of_mem ht hin
    have hview := view_endedNode a id
    have hend := endTrace_child hlive (not_isRootNode h ht hin hne) raises
    have hparent := (pinpointEndTrace_child h ht hin hne raises).2
    have hrest' : Ascends (a.endedNode id).parentOf t.root (a.parentOf id) path := by
      rwa [parentOf_of_view hview]
    have hvalid : (a.pool.nodeAt id).parentId ≠ invalidNode := (h.live_of_mem ht hparent).ne_invalidNode
    rw [List.length_cons, Nat.add_right_comm, forceEndLoop, if_neg hlive.ne_rootNode, bind_of_ok _ hend,
      if_neg hvalid]
    exact ih (h.congr hview) hrest' fun k hk => hmem k (List.mem_cons_of_mem _ hk)

theorem pinpointForceEndTrace_spec (h : a.Sound f) (ht : t ∈ f) (hid : id ∈ t.nodes) (raises : Bool) :
    (∃ a', a.pinpointForceEndTrace id raises = (rootNode, a') ∧ a'.Sound (f.finish t.root)) ∨
      ∃ a', a.pinpointForceEndTrace id raises = (invalidNode, a') ∧ a'.Sound f ∧ a'.view = a.view := by
  obtain ⟨path, hpath, hmem, hlength⟩ := exists_path h.holds ht hid
  obtain ⟨fuel, hfuel⟩ : ∃ fuel, a.pool.maxId.toNat + 1 = path.length + (fuel + 1) :=
    ⟨a.pool.maxId.toNat - path.length, by omega⟩
  have hsound := h.endedAlong path
  have hrootLive := hsound.holds.live_of_mem ht List.mem_cons_self
  unfold pinpointForceEndTrace
  rw [hfuel, forceEndLoop_ascent h.holds ht raises hpath hmem, forceEndLoop, if_neg hrootLive.ne_rootNode]
  have hroot := endTrace_root_sound hsound ht raises
  split at hroot
  · obtain ⟨a', hend, hfreed⟩ := hroot
    left
    refine ⟨a', ?_, hfreed.sound⟩
    rw [bind_of_ok _ hend, if_neg (by decide)]
    cases fuel <;> rfl
  · obtain ⟨e, a', hend, hkept, hview⟩ := hroot
    right
    refine ⟨a', ?_, hkept, hview.trans (view_endedAlong a path)⟩
    rw [bind_of_error _ hend]

end Sound

namespace PyThread

variable {s : PyThread} {f : Forest}

private theorem not_usable_invalidNode (a : Agent) : ¬Usable ⟨a, invalidNode⟩ := by
  rintro (hroot | hlive)
  · exact absurd (show invalidNode = rootNode from hroot) (by decide)
  · exact hlive.ne_invalidNode rfl

private theorem next_startTrace (h : s.agent.Sound f) (husable : s.Usable) :
    (∃ f', (s.next .startTrace).agent.Sound f') ∧
      ((s.next .startTrace).Usable ↔ ¬s.agent.pool.Exhausted) := by
  obtain ⟨id, a', hstart, htaken⟩ | ⟨hnone, hwhy⟩ := pinpointStartTrace_spec h s.perThreadId
  · have hnext : s.next .startTrace = ⟨a', id⟩ := by simp only [next, startThreadLocalTrace, hstart]
    rw [hnext]
    exact ⟨⟨_, htaken.sound⟩, iff_of_true (.inr htaken.live) htaken.ready⟩
  · have hnext : s.next .startTrace = ⟨s.agent, invalidNode⟩ := by
      simp only [next, startThreadLocalTrace, hnone]
    rw [hnext]
    refine ⟨⟨f, h⟩, iff_of_false (not_usable_invalidNode _) (not_not.2 ?_)⟩
    exact hwhy.resolve_right fun ⟨hne, hdead⟩ => (husable.resolve_left hne |> hdead)

private theorem next_endTrace (h : s.agent.Sound f) (husable : s.Usable) (raises : Bool) :
    (∃ f', (s.next (.endTrace raises)).agent.Sound f') ∧
      ((s.next (.endTrace raises)).Usable ↔ s.Meets (.endTrace raises)) := by
  by_cases hlive : s.agent.pool.Live s.perThreadId
  swap
  · -- there is no current node to end
    have hroot := husable.resolve_right hlive
    have hnext : s.next (.endTrace raises) = ⟨s.agent, invalidNode⟩ := by
      simp only [next, endThreadLocalTrace, pinpointEndTrace_dead hlive]
    rw [hnext]
    exact ⟨⟨f, h⟩, iff_of_false (not_usable_invalidNode _) fun hmeets => hmeets.1 hroot⟩
  obtain ⟨t, ht, hid⟩ := h.holds.exists_trace hlive
  by_cases hroot : s.perThreadId = t.root
  · have hend := endTrace_root_sound h ht raises
    rw [← hroot] at hend
    split at hend
    · next hcond =>
      obtain ⟨a', hend, hfreed⟩ := hend
      have hnext : s.next (.endTrace raises) = ⟨a', rootNode⟩ := by
        simp only [next, endThreadLocalTrace, pinpointEndTrace, hend]
      rw [hnext]
      exact ⟨⟨_, hfreed.sound⟩, iff_of_true (.inl rfl) ⟨hlive.ne_rootNode, fun _ => hcond⟩⟩
    · next hcond =>
      obtain ⟨e, a', hend, hsound, -⟩ := hend
      have hnext : s.next (.endTrace raises) = ⟨a', invalidNode⟩ := by
        simp only [next, endThreadLocalTrace, pinpointEndTrace, hend]
      rw [hnext]
      refine ⟨⟨_, hsound⟩, iff_of_false (not_usable_invalidNode _) fun hmeets => hcond ?_⟩
      exact hmeets.2 (hroot ▸ (h.holds.ok t ht).isRootNode_root)
  · obtain ⟨hend, hparent⟩ := pinpointEndTrace_child h.holds ht hid hroot raises
    have hnext : s.next (.endTrace raises) = ⟨s.agent.endedNode s.perThreadId, s.agent.parentOf s.perThreadId⟩ := by
      simp only [next, endThreadLocalTrace, hend]
    rw [hnext]
    have hsound := h.endedAlong [s.perThreadId]
    refine ⟨⟨f, hsound⟩, iff_of_true (.inr (hsound.holds.live_of_mem ht hparent)) ⟨hlive.ne_rootNode, ?_⟩⟩
    intro hisRoot
    exact absurd hisRoot (not_isRootNode h.holds ht hid hroot)

private theorem next_forceFlushTrace (h : s.agent.Sound f) (husable : s.Usable) (raises : Bool) :
    (∃ f', (s.next (.forceFlushTrace raises)).agent.Sound f') ∧ (s.next (.forceFlushTrace raises)).Usable := by
  have hflush : s.next (.forceFlushTrace raises) = (s.forceFlushSpan raises).2 := rfl
  rw [hflush, forceFlushSpan]
  by_cases hlive : s.agent.pool.Live s.perThreadId
  · obtain ⟨t, ht, hid⟩ := h.holds.exists_trace hlive
    obtain ⟨a', hforce, hsound⟩ | ⟨a', hforce, hsound, hview⟩ := pinpointForceEndTrace_spec h ht hid raises
    · simp only [hforce, ne_eq, not_true_eq_false, if_false]
      split
      · exact ⟨⟨_, hsound⟩, .inl rfl⟩
      · next hkept =>
        refine ⟨⟨_, hsound⟩, .inr ?_⟩
        by_contra hdead
        exact hkept ⟨hlive.ne_rootNode, pinpointTraceIsRoot_dead hdead⟩
    · simp only [hforce]
      rw [if_pos (show invalidNode ≠ rootNode by decide)]
      exact ⟨⟨f, hsound⟩, .inr ((live_of_view hview).2 hlive)⟩
  · have hroot := husable.resolve_right hlive
    have hforce : s.agent.pinpointForceEndTrace s.perThreadId raises = (rootNode, s.agent) := by
      rw [hroot]
      rfl
    simp only [hforce, ne_eq, not_true_eq_false, if_false]
    rw [if_neg fun hstale => hstale.1 hroot]
    exact ⟨⟨f, h⟩, husable⟩

private theorem next_spec (h : s.agent.Sound f) (husable : s.Usable) (call : PyCall) :
    (∃ f', (s.next call).agent.Sound f') ∧ ((s.next call).Usable ↔ s.Meets call) := by
  cases call with
  | startTrace => exact next_startTrace h husable
  | endTrace raises => exact next_endTrace h husable raises
  | forceFlushTrace raises =>
    obtain ⟨hsound, hflushed⟩ := next_forceFlushTrace h husable raises
    exact ⟨hsound, iff_of_true hflushed trivial⟩

private theorem along_iff (h : s.agent.Sound f) (husable : s.Usable) (calls : List PyCall) :
    Along step Meets s calls ↔ Along step (fun s call => (s.next call).Usable) s calls := by
  induction calls generalizing s f with
  | nil => rfl
  | cons call calls ih =>
    obtain ⟨⟨f', hsound⟩, hiff⟩ := next_spec h husable call
    simp only [Along, step, Option.some.injEq, forall_eq']
    rw [hiff]
    refine and_congr_right fun hmeets => ?_
    exact ih hsound (hiff.2 hmeets)

private theorem reaches (h : s.agent.Sound f) (husable : s.Usable) {calls : List PyCall} {t : PyThread}
    (hmeets : Along step Meets s calls) (hrun : exec step s calls = some t) :
    (∃ f', t.agent.Sound f') ∧ t.Usable := by
  refine Along.invariant (P := fun s : PyThread => (∃ f, s.agent.Sound f) ∧ s.Usable) ?_ ⟨⟨f, h⟩, husable⟩
    hmeets hrun
  rintro s call t ⟨⟨f, h⟩, husable⟩ hmeets hstep
  cases hstep
  obtain ⟨hsound, hiff⟩ := next_spec h husable call
  exact ⟨hsound, hiff.2 hmeets⟩

/-- Over every sequence of calls without arguments, the id is `E_ROOT_NODE` or a live node after each
call if and only if every start finds a node to take and every end a node to end whose span does not
fail to be handed over; from then on a start succeeds as long as the pool is not exhausted. -/
theorem thread_local_id_usable_iff (agentType : Int) (clock : Nat → Nat) (calls : List PyCall) :
    (Along step (fun s call => (s.next call).Usable) (new agentType clock) calls ↔
        Along step Meets (new agentType clock) calls) ∧
      ∀ t, Along step Meets (new agentType clock) calls → exec step (new agentType clock) calls = some t →
        ¬t.agent.pool.Exhausted →
        t.startThreadLocalTrace.2.agent.pool.Live t.startThreadLocalTrace.1 := by
  have hstart := sound_new agentType clock
  refine ⟨(along_iff hstart (.inl rfl) calls).symm, ?_⟩
  intro t hmeets hrun hready
  obtain ⟨⟨f, hsound⟩, husable⟩ := reaches hstart (.inl rfl) hmeets hrun
  obtain ⟨id, a', hstart, htaken⟩ | ⟨-, hwhy⟩ := pinpointStartTrace_spec hsound t.perThreadId
  · simp only [startThreadLocalTrace, hstart]
    exact htaken.live
  · obtain hfull | ⟨hne, hdead⟩ := hwhy
    · exact absurd hfull hready
    · exact absurd (husable.resolve_left hne) hdead

theorem thread_local_id_usable_iff_flushed :
    Along step (fun s call => (s.next call).Usable) (new 1700 id)
        [.startTrace, .startTrace, .endTrace false, .forceFlushTrace false] ∧
      ∃ t, exec step (new 1700 id) [.startTrace, .startTrace, .endTrace false, .forceFlushTrace false] = some t ∧
        t.startThreadLocalTrace.2.agent.pool.Live t.startThreadLocalTrace.1 := by
  obtain ⟨hiff, hstart⟩ := thread_local_id_usable_iff 1700 id
    [.startTrace, .startTrace, .endTrace false, .forceFlushTrace false]
  have hmeets : Along step Meets (new 1700 id)
      [.startTrace, .startTrace, .endTrace false, .forceFlushTrace false] := by decide +kernel
  exact ⟨hiff.2 hmeets, _, rfl, hstart _ hmeets rfl (by decide +kernel)⟩

/-- One `end_trace()` too many: the id is `E_INVALID_NODE`, and every later `start_trace()` fails
although the pool is all but empty. -/
theorem end_without_start_loses_id :
    ((new 1700 id).next (.endTrace false)).perThreadId = invalidNode ∧
      ¬((new 1700 id).next (.endTrace false)).Usable ∧
      ¬((new 1700 id).next (.endTrace false)).agent.pool.Exhausted ∧
      ((new 1700 id).next (.endTrace false)).startThreadLocalTrace.1 = invalidNode ∧
      (((new 1700 id).next (.endTrace false)).next (.forceFlushTrace false)).perThreadId = invalidNode := by
  decide +kernel

end PyThread

end PinpointAgent.Agent
