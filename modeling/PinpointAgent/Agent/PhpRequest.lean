import PinpointAgent.Agent.ThreadLocal

/-!
# What a PHP request leaves behind

`_pinpoint_start_trace()` and `_pinpoint_end_trace()` without arguments work on the node of
`per_thread_current_id` and store what they get back; `PHP_RSHUTDOWN` ends the node that is current,
then its parent, and so on. A start that finds the pool exhausted stores `E_INVALID_NODE`: the tree
that was open is out of reach, for the rest of the request and for the shutdown.

Beside the agent the request keeps what the caller saw: the nodes that starts returned, and for every
root whether its status stayed `E_TRACE_PASS` and which spans were handed over since.
-/

namespace PinpointAgent.Agent

open Framework NodePool

structure RootEntry where
  root : Int
  stayedPass : Bool
  handed : List Members

structure PhpRequest where
  agent : Agent
  perThreadId : Int
  started : List Int
  /-- The roots of the request, the latest first. -/
  roots : List RootEntry

/-- A call during a request; `annotate` stands for the calls that neither start nor end a node. -/
inductive PhpCall where
  | startTrace
  | endTrace (raises : Bool)
  | annotate (call : ApiCall)

def ApiCall.Annotates : ApiCall → Prop
  | .startTrace .. | .endTrace .. => False
  | _ => True

instance ApiCall.decidableAnnotates : (call : ApiCall) → Decidable call.Annotates
  | .startTrace .. | .endTrace .. => isFalse id
  | .addClue .. | .addClues .. | .addException .. | .catchError .. | .setContextKey .. | .setAsyncCtx ..
  | .changeTraceStatus .. => isTrue trivial

def PhpCall.Collides : PhpCall → Prop
  | .annotate call => call.Collides
  | .startTrace | .endTrace _ => False

instance PhpCall.decidableCollides : (call : PhpCall) → Decidable call.Collides
  | .annotate call => inferInstanceAs (Decidable call.Collides)
  | .startTrace | .endTrace _ => isFalse id

namespace PhpRequest

def init (a : Agent) : PhpRequest := ⟨a, rootNode, [], []⟩

/-- The status of the latest root is looked at after each annotation. -/
def noteStatus (a' : Agent) : List RootEntry → List RootEntry
  | [] => []
  | e :: rest =>
    { e with stayedPass := e.stayedPass && (a'.pool.rootExtra e.root).status == tracePass } :: rest

/-- The spans handed over between `a` and `a'` belong to the latest root. -/
def noteSpans (a a' : Agent) : List RootEntry → List RootEntry
  | [] => []
  | e :: rest => { e with handed := e.handed ++ a'.spans.drop a.spans.length } :: rest

def startTrace (s : PhpRequest) : PhpRequest :=
  let r := s.agent.pinpointStartTraceV1 s.perThreadId []
  { agent := r.2
    perThreadId := r.1
    started := if r.1 = invalidNode then s.started else r.1 :: s.started
    roots := if r.1 ≠ invalidNode ∧ s.perThreadId = rootNode then ⟨r.1, true, []⟩ :: s.roots else s.roots }

def moveTo (s : PhpRequest) (id : Int) (a' : Agent) : PhpRequest :=
  { s with agent := a', perThreadId := id, roots := noteSpans s.agent a' s.roots }

def endTrace (s : PhpRequest) (raises : Bool) : PhpRequest :=
  let r := s.agent.pinpointEndTrace s.perThreadId raises
  s.moveTo r.1 r.2

def annotate (s : PhpRequest) (call : ApiCall) : PhpRequest :=
  { s with agent := s.agent.after call, roots := noteStatus (s.agent.after call) s.roots }

def step (s : PhpRequest) : PhpCall → Option PhpRequest
  | .startTrace => some s.startTrace
  | .endTrace raises => some (s.endTrace raises)
  | .annotate call => if call.Annotates then some (s.annotate call) else none

/-- The loop of `PHP_RSHUTDOWN`; `none` when `fuel` rounds do not end it. -/
def shutdownLoop (raises : Bool) : Nat → Int → Agent → Option Agent
  | 0, id, a => if rootNode < id then none else some a
  | fuel + 1, id, a =>
    if rootNode < id then
      let r := a.pinpointEndTrace id raises
      shutdownLoop raises fuel r.1 r.2
    else some a

/-- `PHP_RSHUTDOWN`, with a round of its loop for every node of the pool. -/
def rshutdown (s : PhpRequest) (raises : Bool) : Option PhpRequest :=
  (shutdownLoop raises (s.agent.pool.maxId.toNat + 1) s.perThreadId s.agent).map (s.moveTo rootNode)

structure Clean (s : PhpRequest) : Prop where
  current : s.perThreadId = rootNode
  freed : ∀ id ∈ s.started, id - 1 ∈ s.agent.pool.freeNodeList
  handed : ∀ e ∈ s.roots, e.stayedPass = true → e.handed ≠ []

/-- There is a node to hand out for a start, and the span of a passing root that ends is handed over
without an exception. -/
def Meets (s : PhpRequest) : PhpCall → Prop
  | .startTrace => ¬s.agent.pool.Exhausted
  | .endTrace raises => s.agent.pool.Live s.perThreadId →
      (s.agent.pool.nodeAt s.perThreadId).isRootNode = true →
      (s.agent.pool.rootExtra s.perThreadId).status = tracePass → raises = false
  | .annotate _ => True

/-- The span of the trace that the shutdown ends, if it passes, is handed over without an exception. -/
def ShutdownMeets (s : PhpRequest) (raises : Bool) : Prop :=
  s.agent.pool.Live s.perThreadId →
    (s.agent.pool.rootExtra (s.agent.pool.nodeAt s.perThreadId).rootId).status = tracePass → raises = false

instance decidableMeets (s : PhpRequest) : (call : PhpCall) → Decidable (s.Meets call)
  | .startTrace => inferInstanceAs (Decidable (¬ _))
  | .endTrace _ => inferInstanceAs (Decidable (_ → _ → _ → _))
  | .annotate _ => isTrue trivial

instance decidableShutdownMeets (s : PhpRequest) (raises : Bool) : Decidable (s.ShutdownMeets raises) :=
  inferInstanceAs (Decidable (_ → _ → _))

/-- The links and what is known of the nodes that starts returned. -/
structure Kept (s : PhpRequest) (f : Forest) : Prop where
  sound : s.agent.Sound f
  started : ∀ id ∈ f.nodes, id ∈ s.started
  known : ∀ id ∈ s.started, 1 ≤ id ∧ id ≤ s.agent.pool.maxId

/-- Every root of the list whose status stayed `E_TRACE_PASS` had its span handed over. -/
def Served (roots : List RootEntry) : Prop := ∀ e ∈ roots, e.stayedPass = true → e.handed ≠ []

/-- Where a request stands that has lost nothing: no tree is open, or one and the current node is in
it. -/
inductive Phase (s : PhpRequest) : Forest → Prop
  | idle : s.perThreadId ≤ rootNode → Served s.roots → Phase s []
  | opened {t : Trace} {e : RootEntry} {rest : List RootEntry} : s.perThreadId ∈ t.nodes →
      s.roots = e :: rest → e.root = t.root →
      (e.stayedPass = true → (s.agent.pool.rootExtra t.root).status = tracePass) → Served rest → Phase s [t]

/-- A tree is open and the current node is `E_INVALID_NODE`. -/
structure Lost (s : PhpRequest) (f : Forest) : Prop where
  current : s.perThreadId = invalidNode
  nodes : f.nodes ≠ []

variable {s : PhpRequest} {f : Forest}

section Notes

variable {a a' : Agent} {roots : List RootEntry}

private theorem Served.noteSpans (h : Served roots) : Served (noteSpans a a' roots) := by
  cases roots with
  | nil => exact h
  | cons e rest =>
    intro e' he'
    obtain rfl | hin := List.mem_cons.1 he'
    · intro hpass hnil
      exact h e List.mem_cons_self hpass (List.append_eq_nil_iff.1 hnil).1
    · exact h e' (List.mem_cons_of_mem _ hin)

private theorem Served.noteStatus (h : Served roots) : Served (noteStatus a' roots) := by
  cases roots with
  | nil => exact h
  | cons e rest =>
    intro e' he'
    obtain rfl | hin := List.mem_cons.1 he'
    · intro hpass
      exact h e List.mem_cons_self (Bool.and_eq_true_iff.1 hpass).1
    · exact h e' (List.mem_cons_of_mem _ hin)

end Notes

private theorem not_exhausted_of_empty {p : PoolManager} (h : Holds p [] []) : ¬p.Exhausted := by
  rintro ⟨hfree, hlimit⟩
  have hunused : p.usedNodeSet 0 = false := by
    by_contra hused
    have hlive : p.Live 1 := PoolManager.live_iff.2 ⟨by decide, by
      simp only [poolMaxNodesLimit] at hlimit
      omega, by simpa using hused⟩
    simpa using (h.live_iff 1).1 hlive
  have hmem : (0 : Int) ∈ p.freeNodeList := (h.alloc.mem_free 0).2 ⟨by decide, by
    simp only [poolMaxNodesLimit] at hlimit
    omega, hunused⟩
  rw [hfree] at hmem
  exact List.not_mem_nil hmem

theorem view_after_annotates {a : Agent} (h : Holds a.pool f []) {call : ApiCall} (hcall : call.Annotates) :
    (a.after call).view = a.view := by
  cases call with
  | startTrace | endTrace => exact hcall.elim
  | addClue id key value flag => exact frames_annotateTraceV1 id key value flag a
  | addClues id key value flag => exact frames_annotateTraceV2 id key value flag a
  | addException id exception => exact frames_annotateExceptionTrace id exception a
  | catchError id msg file line => exact frames_annotateErrorTrace id msg file line a
  | setContextKey id key value => exact frames_addTraceContext id key value a
  | setAsyncCtx id asyncNodeId nodeSequence => exact frames_setAsyncContext id asyncNodeId nodeSequence a
  | changeTraceStatus id status => exact changeTraceStatus_view h id status

private theorem Kept.of_view {s' : PhpRequest} (h : s.Kept f) (hsound : s'.agent.Sound f)
    (hview : s'.agent.view = s.agent.view) (hstarted : s'.started = s.started) : s'.Kept f := by
  have hmax : s'.agent.pool.maxId = s.agent.pool.maxId := congrArg PoolView.maxId hview
  exact ⟨hsound, hstarted ▸ h.started, hstarted ▸ hmax ▸ h.known⟩

private theorem Kept.annotate (h : s.Kept f) {call : ApiCall} (hannotates : call.Annotates)
    (hclear : ¬call.Collides) : (s.annotate call).Kept f := by
  have hsound := h.sound.after hclear
  have hforest : World.nextForest ⟨s.agent, f⟩ call = f := by
    cases call with
    | startTrace | endTrace => exact hannotates.elim
    | _ => rfl
  rw [hforest] at hsound
  exact h.of_view hsound (view_after_annotates h.sound.holds hannotates) rfl

private theorem mem_nodes_start {parent new id : Int} (h : id ∈ (f.start parent new).nodes) : id = new ∨ id ∈ f.nodes := by
  unfold Forest.start at h
  split at h
  · simp only [Forest.nodes_append, Forest.nodes_cons, Forest.nodes_nil, Trace.nodes, List.append_nil,
      List.mem_append, List.mem_singleton] at h
    exact h.symm
  · obtain ⟨t', ht', hid⟩ := Forest.mem_nodes.1 h
    obtain ⟨t, ht, rfl⟩ := List.mem_map.1 ht'
    split at hid
    · simp only [Trace.nodes, List.mem_cons, List.mem_append, List.not_mem_nil, or_false] at hid
      obtain hroot | hkid | hnew := hid
      · exact .inr (Forest.mem_nodes_of_mem ht (List.mem_cons.2 (.inl hroot)))
      · exact .inr (Forest.mem_nodes_of_mem ht (List.mem_cons_of_mem _ hkid))
      · exact .inl hnew
    · exact .inr (Forest.mem_nodes_of_mem ht hid)

private theorem Kept.started_of_taken (h : s.Kept f) {id : Int} {a' : Agent}
    (htaken : Taken s.agent f s.perThreadId id a') (roots : List RootEntry) :
    Kept ⟨a', id, id :: s.started, roots⟩ (f.start s.perThreadId id) := by
  refine ⟨htaken.sound, ?_, ?_⟩
  · intro other hother
    obtain rfl | hold := mem_nodes_start hother
    · exact List.mem_cons_self
    · exact List.mem_cons_of_mem _ (h.started other hold)
  · intro other hother
    obtain rfl | hold := List.mem_cons.1 hother
    · have hlive := PoolManager.live_iff.1 htaken.live
      dsimp only
      omega
    · have hknown := h.known other hold
      exact ⟨hknown.1, hknown.2.trans htaken.maxId.1⟩

section Steps

variable {s' : PhpRequest}

private theorem startTrace_taken {id : Int} {a' : Agent}
    (hstart : s.agent.pinpointStartTraceV1 s.perThreadId [] = (id, a')) (hvalid : id ≠ invalidNode) :
    s.startTrace = ⟨a', id, id :: s.started,
      if s.perThreadId = rootNode then ⟨id, true, []⟩ :: s.roots else s.roots⟩ := by
  simp only [startTrace, hstart, ne_eq, hvalid, not_false_eq_true, true_and, if_false]

private theorem startTrace_failed
    (hstart : s.agent.pinpointStartTraceV1 s.perThreadId [] = (invalidNode, s.agent)) :
    s.startTrace = { s with perThreadId := invalidNode } := by
  simp only [startTrace, hstart, if_true, ne_eq, not_true_eq_false, false_and, if_false]

private theorem startTrace_idle (h : s.Kept []) (hphase : s.Phase []) :
    ∃ f, s.startTrace.Kept f ∧ s.startTrace.Phase f := by
  obtain ⟨hcurrent, hserved⟩ := hphase
  obtain ⟨id, a', hstart, htaken⟩ | ⟨hstart, -⟩ := pinpointStartTrace_spec h.sound s.perThreadId
  · have hroot : s.perThreadId = rootNode := by
      refine htaken.parent.resolve_right fun hlive => ?_
      simpa using (h.sound.holds.live_iff _).1 hlive
    have hkept := h.started_of_taken htaken (⟨id, true, []⟩ :: s.roots)
    have hstatus := htaken.newStatus hroot
    rw [startTrace_taken hstart htaken.live.ne_invalidNode, if_pos hroot]
    rw [hroot, Forest.start, if_pos rfl, List.nil_append] at hkept
    exact ⟨_, hkept, .opened List.mem_cons_self rfl rfl (fun _ => hstatus) hserved⟩
  · rw [startTrace_failed hstart]
    exact ⟨[], h.of_view h.sound rfl rfl, .idle (show invalidNode ≤ rootNode by decide) hserved⟩

private theorem startTrace_opened {t : Trace} (h : s.Kept [t]) (hphase : s.Phase [t]) :
    if s.agent.pool.Exhausted then s.startTrace.Kept [t] ∧ s.startTrace.Lost [t]
    else ∃ f, s.startTrace.Kept f ∧ s.startTrace.Phase f := by
  cases hphase with
  | opened hid hroots hroot hpass hserved =>
  have ht : t ∈ [t] := List.mem_cons_self
  have hlive := h.sound.holds.live_of_mem ht hid
  obtain ⟨id, a', hstart, htaken⟩ | ⟨hstart, hwhy⟩ := pinpointStartTrace_spec h.sound s.perThreadId
  · rw [if_neg htaken.ready]
    have hkept := h.started_of_taken htaken s.roots
    have hforest : Forest.start [t] s.perThreadId id = [{ t with kids := t.kids ++ [id] }] := by
      rw [Forest.start, if_neg hlive.ne_rootNode, List.map_singleton, if_pos hid]
    have hstatus := htaken.status t.root (h.sound.holds.live_of_mem ht List.mem_cons_self)
    rw [startTrace_taken hstart htaken.live.ne_invalidNode, if_neg hlive.ne_rootNode]
    rw [hforest] at hkept
    refine ⟨_, hkept, .opened ?_ hroots hroot (fun hstayed => hstatus.trans (hpass hstayed)) hserved⟩
    simp [Trace.nodes]
  · rw [if_pos (hwhy.resolve_right fun hdead => hdead.2 hlive), startTrace_failed hstart]
    exact ⟨h.of_view h.sound rfl rfl, rfl, by simp [Trace.nodes]⟩

private theorem endTrace_dead (hdead : ¬s.agent.pool.Live s.perThreadId) (raises : Bool) :
    s.endTrace raises = s.moveTo invalidNode s.agent := by
  simp only [endTrace, pinpointEndTrace_dead hdead]

private theorem endTrace_idle (h : s.Kept []) (hphase : s.Phase []) (raises : Bool) :
    (s.endTrace raises).Kept [] ∧ (s.endTrace raises).Phase [] := by
  obtain ⟨hcurrent, hserved⟩ := hphase
  have hdead : ¬s.agent.pool.Live s.perThreadId := fun hlive => by
    simpa using (h.sound.holds.live_iff _).1 hlive
  rw [endTrace_dead hdead]
  exact ⟨h.of_view h.sound rfl rfl, .idle (show invalidNode ≤ rootNode by decide) hserved.noteSpans⟩

private theorem closed_of_freed {t : Trace} {e : RootEntry} {rest : List RootEntry} {a' : Agent} {id : Int}
    (h : s.Kept [t]) (hroots : s.roots = e :: rest)
    (hpass : e.stayedPass = true → (s.agent.pool.rootExtra t.root).status = tracePass) (hserved : Served rest)
    (hfreed : Freed s.agent [t] t.root a') (hid : id ≤ rootNode) :
    (s.moveTo id a').Kept [] ∧ (s.moveTo id a').Phase [] := by
  have hempty : Forest.finish [t] t.root = [] := by simp [Forest.finish]
  have hsound := hfreed.sound
  rw [hempty] at hsound
  refine ⟨⟨hsound, fun _ hnone => absurd hnone List.not_mem_nil, fun id hid => hfreed.maxId ▸ h.known id hid⟩,
    .idle hid ?_⟩
  simp only [moveTo, hroots]
  intro e' he'
  obtain rfl | hin := List.mem_cons.1 he'
  · intro hstayed
    obtain ⟨span, hspans⟩ := hfreed.handed (hpass hstayed)
    simp [hspans]
  · exact hserved e' hin

private theorem endTrace_opened {t : Trace} (h : s.Kept [t]) (hphase : s.Phase [t]) (raises : Bool) :
    (s.Meets (.endTrace raises) → ∃ f, (s.endTrace raises).Kept f ∧ (s.endTrace raises).Phase f) ∧
      (¬s.Meets (.endTrace raises) → (s.endTrace raises).Kept [t] ∧ (s.endTrace raises).Lost [t]) := by
  cases hphase with
  | @opened _ e rest hid hroots hroot hpass hserved =>
  have ht : t ∈ [t] := List.mem_cons_self
  have hlive := h.sound.holds.live_of_mem ht hid
  by_cases hcurrent : s.perThreadId = t.root
  · have hend := endTrace_root_sound h.sound ht raises
    rw [← hcurrent] at hend
    split at hend
    · next hcond =>
      obtain ⟨a', hend, hfreed⟩ := hend
      rw [hcurrent] at hfreed
      have hclosed := closed_of_freed h hroots hpass hserved hfreed (Int.le_refl _)
      have heq : s.endTrace raises = s.moveTo rootNode a' := by
        simp only [endTrace, pinpointEndTrace, hend]
      rw [heq]
      exact ⟨fun _ => ⟨[], hclosed⟩, fun hnot => absurd (fun _ _ => hcond) hnot⟩
    · next hcond =>
      obtain ⟨x, a', hend, hsound, hview⟩ := hend
      have heq : s.endTrace raises = s.moveTo invalidNode a' := by
        simp only [endTrace, pinpointEndTrace, hend]
      rw [heq]
      refine ⟨fun hmeets => absurd (hmeets hlive ?_) hcond, fun _ => ⟨h.of_view hsound hview rfl, rfl, ?_⟩⟩
      · exact hcurrent ▸ (h.sound.holds.ok t ht).isRootNode_root
      · simp [Trace.nodes]
  · -- the end of a child moves to its parent
    obtain ⟨hend, hparent⟩ := pinpointEndTrace_child h.sound.holds ht hid hcurrent raises
    have hsound := h.sound.endedAlong [s.perThreadId]
    have heq : s.endTrace raises =
        s.moveTo (s.agent.parentOf s.perThreadId) (s.agent.endedNode s.perThreadId) := by
      simp only [endTrace, hend]
    have hchild := not_isRootNode h.sound.holds ht hid hcurrent
    rw [heq]
    refine ⟨fun _ => ⟨[t], h.of_view hsound (view_endedNode _ _) rfl, ?_⟩,
      fun hnot => absurd (fun _ hisRoot => absurd hisRoot hchild) hnot⟩
    refine .opened hparent (congrArg (noteSpans _ _) hroots) hroot ?_ hserved
    intro hstayed
    exact (congrArg RootTraceNodeExtra.status (rootExtra_endedNode _ _ _)).trans (hpass hstayed)

private theorem Phase.annotate (hphase : s.Phase f) (call : ApiCall) : (s.annotate call).Phase f := by
  cases hphase with
  | idle hcurrent hserved => exact .idle hcurrent hserved.noteStatus
  | opened hid hroots hroot hpass hserved =>
    refine .opened hid (congrArg (noteStatus _) hroots) hroot ?_ hserved
    intro hstayed
    have hstatus := (Bool.and_eq_true_iff.1 hstayed).2
    rw [hroot] at hstatus
    exact eq_of_beq hstatus

private theorem step_phase (h : s.Kept f) (hphase : s.Phase f) {call : PhpCall} (hclear : ¬call.Collides)
    (hstep : s.step call = some s') :
    (s.Meets call → ∃ f', s'.Kept f' ∧ s'.Phase f') ∧ (¬s.Meets call → ∃ f', s'.Kept f' ∧ s'.Lost f') := by
  have hstands := hphase
  cases call with
  | startTrace =>
    cases hstep
    cases hphase with
    | idle =>
      exact ⟨fun _ => startTrace_idle h hstands, fun hnot => absurd (not_exhausted_of_empty h.sound.holds) hnot⟩
    | opened =>
      have hstart := startTrace_opened h hstands
      split at hstart
      · next hfull => exact ⟨fun hready => absurd hfull hready, fun _ => ⟨_, hstart⟩⟩
      · next hready => exact ⟨fun _ => hstart, fun hnot => absurd hready hnot⟩
  | endTrace raises =>
    cases hstep
    cases hphase with
    | idle =>
      refine ⟨fun _ => ⟨[], endTrace_idle h hstands raises⟩, fun hnot => absurd (fun hlive => ?_) hnot⟩
      simpa using (h.sound.holds.live_iff _).1 hlive
    | opened =>
      obtain ⟨hkept, hlost⟩ := endTrace_opened h hstands raises
      exact ⟨hkept, fun hnot => ⟨_, hlost hnot⟩⟩
  | annotate call =>
    simp only [step] at hstep
    split at hstep
    · next hannotates =>
      cases hstep
      exact ⟨fun _ => ⟨f, h.annotate hannotates hclear, hphase.annotate call⟩, fun hnot => absurd trivial hnot⟩
    · cases hstep

/-- Nothing that a call without arguments does from `E_INVALID_NODE` reaches the tree again. -/
theorem step_lost (h : s.Kept f) (hlost : s.Lost f) {call : PhpCall} (hclear : ¬call.Collides)
    (hstep : s.step call = some s') : s'.Kept f ∧ s'.Lost f := by
  have hdead : ¬s.agent.pool.Live s.perThreadId := fun hlive => hlive.ne_invalidNode hlost.current
  cases call with
  | startTrace =>
    cases hstep
    obtain ⟨id, a', -, htaken⟩ | ⟨hstart, -⟩ := pinpointStartTrace_spec h.sound s.perThreadId
    · obtain hroot | hlive := htaken.parent
      · exact absurd (hlost.current.symm.trans hroot) (by decide)
      · exact absurd hlive hdead
    · rw [startTrace_failed hstart]
      exact ⟨h.of_view h.sound rfl rfl, rfl, hlost.nodes⟩
  | endTrace raises =>
    cases hstep
    rw [endTrace_dead hdead]
    exact ⟨h.of_view h.sound rfl rfl, rfl, hlost.nodes⟩
  | annotate call =>
    simp only [step] at hstep
    split at hstep
    · next hannotates =>
      cases hstep
      exact ⟨h.annotate hannotates hclear, hlost.current, hlost.nodes⟩
    · cases hstep

private theorem exec_lost {calls : List PhpCall} (h : s.Kept f) (hlost : s.Lost f) (hclear : ∀ call ∈ calls, ¬call.Collides)
    (hrun : exec step s calls = some s') : s'.Kept f ∧ s'.Lost f := by
  induction calls generalizing s with
  | nil =>
    cases hrun
    exact ⟨h, hlost⟩
  | cons call calls ih =>
    obtain ⟨u, hu, hrest⟩ := Option.bind_eq_some_iff.1 hrun
    obtain ⟨hkept, hlost'⟩ := step_lost h hlost (hclear call List.mem_cons_self) hu
    exact ih hkept hlost' (fun other hother => hclear other (List.mem_cons_of_mem _ hother)) hrest

/-- A run whose steps all meet the condition has lost nothing; any other has lost a tree. -/
theorem exec_phase {calls : List PhpCall} (h : s.Kept f) (hphase : s.Phase f)
    (hclear : ∀ call ∈ calls, ¬call.Collides) (hrun : exec step s calls = some s') :
    (Along step Meets s calls → ∃ f', s'.Kept f' ∧ s'.Phase f') ∧
      (¬Along step Meets s calls → ∃ f', s'.Kept f' ∧ s'.Lost f') := by
  induction calls generalizing s f with
  | nil =>
    cases hrun
    exact ⟨fun _ => ⟨f, h, hphase⟩, fun hnot => absurd trivial hnot⟩
  | cons call calls ih =>
    obtain ⟨u, hu, hrest⟩ := Option.bind_eq_some_iff.1 hrun
    obtain ⟨hgood, hbad⟩ := step_phase h hphase (hclear call List.mem_cons_self) hu
    have hclear' : ∀ other ∈ calls, ¬other.Collides := fun other hother => hclear other (List.mem_cons_of_mem _ hother)
    have halong : Along step Meets s (call :: calls) ↔ s.Meets call ∧ Along step Meets u calls := by
      simp only [Along, hu, Option.some.injEq, forall_eq']
    rw [halong]
    by_cases hmeets : s.Meets call
    · obtain ⟨f', hkept, hphase'⟩ := hgood hmeets
      obtain ⟨hdone, hlost⟩ := ih hkept hphase' hclear' hrest
      exact ⟨fun hall => hdone hall.2, fun hnot => hlost fun hall => hnot ⟨hmeets, hall⟩⟩
    · obtain ⟨f', hkept, hlost⟩ := hbad hmeets
      exact ⟨fun hall => absurd hall.1 hmeets, fun _ => ⟨f', exec_lost hkept hlost hclear' hrest⟩⟩

end Steps

section Shutdown

private theorem exists_leaked (h : s.Kept f) (hnodes : f.nodes ≠ []) :
    ∃ id ∈ s.started, id - 1 ∉ s.agent.pool.freeNodeList := by
  obtain ⟨id, hid⟩ := List.exists_mem_of_ne_nil _ hnodes
  refine ⟨id, h.started id hid, fun hmem => ?_⟩
  have hlive : s.agent.pool.Live id := (h.sound.holds.live_iff id).2 (by simpa using hid)
  have hused := (PoolManager.live_iff.1 hlive).2.2
  rw [((h.sound.holds.alloc.mem_free _).1 hmem).2.2] at hused
  exact absurd hused (by decide)

private theorem not_clean_of_live (h : s.Kept f) (hnodes : f.nodes ≠ []) : ¬s.Clean := by
  obtain ⟨id, hid, hleaked⟩ := exists_leaked h hnodes
  exact fun hclean => hleaked (hclean.freed id hid)

private theorem clean_of_idle (h : s.Kept []) (hphase : s.Phase []) (hcurrent : s.perThreadId = rootNode) : s.Clean := by
  cases hphase with
  | idle _ hserved =>
  refine ⟨hcurrent, fun id hid => ?_, hserved⟩
  obtain ⟨hlo, hhi⟩ := h.known id hid
  refine (h.sound.holds.alloc.mem_free _).2 ⟨by omega, by omega, ?_⟩
  by_contra hused
  have hlive : s.agent.pool.Live id := PoolManager.live_iff.2 ⟨by omega, by omega, by simpa using hused⟩
  simpa using (h.sound.holds.live_iff id).1 hlive

private theorem shutdownLoop_ascent {a : Agent} {t : Trace} {id : Int} (h : Holds a.pool f []) (ht : t ∈ f)
    (raises : Bool) {path : List Int} (hpath : Ascends a.parentOf t.root id path)
    (hmem : ∀ k ∈ path, k ∈ t.nodes) (fuel : Nat) :
    shutdownLoop raises (path.length + fuel) id a = shutdownLoop raises fuel t.root (a.endedAlong path) := by
  induction path generalizing a id with
  | nil =>
    have hroot : id = t.root := hpath
    rw [hroot, List.length_nil, Nat.zero_add]
    rfl
  | cons k path ih =>
    obtain ⟨rfl, hne, hrest⟩ := hpath
    have hin : id ∈ t.nodes := hmem id List.mem_cons_self
    have hpos : rootNode < id := (h.live_of_mem ht hin).pos
    have hview := view_endedNode a id
    obtain ⟨hend, -⟩ := pinpointEndTrace_child h ht hin hne raises
    have hrest' : Ascends (a.endedNode id).parentOf t.root (a.parentOf id) path := by
      rwa [parentOf_of_view hview]
    rw [List.length_cons, Nat.add_right_comm, shutdownLoop, if_pos hpos, hend]
    exact ih (h.congr hview) hrest' fun k hk => hmem k (List.mem_cons_of_mem _ hk)

private theorem rshutdown_of_le (h : s.perThreadId ≤ rootNode) (raises : Bool) :
    s.rshutdown raises = some (s.moveTo rootNode s.agent) := by
  rw [rshutdown, shutdownLoop, if_neg (not_lt.2 h)]
  rfl

private theorem rshutdown_lost (h : s.Kept f) (hlost : s.Lost f) (raises : Bool) :
    ∃ s', s.rshutdown raises = some s' ∧ s'.Kept f := by
  have hle : s.perThreadId ≤ rootNode := hlost.current ▸ (show invalidNode ≤ rootNode by decide)
  exact ⟨_, rshutdown_of_le hle raises, h.of_view h.sound rfl rfl⟩

private theorem rshutdown_idle (h : s.Kept []) (hphase : s.Phase []) (raises : Bool) :
    ∃ s', s.rshutdown raises = some s' ∧ s'.Clean := by
  obtain ⟨hcurrent, hserved⟩ := hphase
  refine ⟨_, rshutdown_of_le hcurrent raises, ?_⟩
  exact clean_of_idle (h.of_view h.sound rfl rfl) (.idle (Int.le_refl _) hserved.noteSpans) rfl

private theorem rshutdown_eq {t : Trace} (h : s.Kept [t]) (hid : s.perThreadId ∈ t.nodes) (raises : Bool) :
    ∃ path, ∀ id a', (s.agent.endedAlong path).pinpointEndTrace t.root raises = (id, a') → id ≤ rootNode →
      s.rshutdown raises = some (s.moveTo rootNode a') := by
  have ht : t ∈ [t] := List.mem_cons_self
  obtain ⟨path, hpath, hmem, hlength⟩ := exists_path h.sound.holds ht hid
  obtain ⟨fuel, hfuel⟩ : ∃ fuel, s.agent.pool.maxId.toNat + 1 = path.length + (fuel + 1) :=
    ⟨s.agent.pool.maxId.toNat - path.length, by omega⟩
  refine ⟨path, fun id a' hend hle => ?_⟩
  have hpos : rootNode < t.root := (h.sound.holds.live_of_mem ht List.mem_cons_self).pos
  rw [rshutdown, hfuel, shutdownLoop_ascent h.sound.holds ht raises hpath hmem, shutdownLoop, if_pos hpos, hend]
  cases fuel <;> simp only [shutdownLoop, if_neg (not_lt.2 hle), Option.map_some]

private theorem rshutdown_opened {t : Trace} (h : s.Kept [t]) (hphase : s.Phase [t]) (raises : Bool) :
    ∃ s', s.rshutdown raises = some s' ∧ (s'.Clean ↔ s.ShutdownMeets raises) := by
  cases hphase with
  | @opened _ e rest hid hroots hroot hpass hserved =>
  have ht : t ∈ [t] := List.mem_cons_self
  have hlive := h.sound.holds.live_of_mem ht hid
  have hrootId := ((h.sound.holds.ok t ht).node_ids hid).2
  obtain ⟨path, heq⟩ := rshutdown_eq h hid raises
  have hsound := h.sound.endedAlong path
  have hend := endTrace_root_sound hsound ht raises
  rw [rootExtra_endedAlong] at hend
  split at hend
  · next hcond =>
    obtain ⟨a', hend, hfreed⟩ := hend
    have hpair : (s.agent.endedAlong path).pinpointEndTrace t.root raises = (rootNode, a') := by
      simp only [pinpointEndTrace, hend]
    have hfreed' : Freed s.agent [t] t.root a' := by
      refine ⟨hfreed.sound, hfreed.maxId.trans (congrArg PoolView.maxId (view_endedAlong _ path)), fun hstatus => ?_⟩
      rw [← spans_endedAlong s.agent path]
      exact hfreed.handed ((rootExtra_endedAlong s.agent path t.root).symm ▸ hstatus)
    obtain ⟨hkept, hidle⟩ := closed_of_freed h hroots hpass hserved hfreed' (Int.le_refl rootNode)
    refine ⟨_, heq _ _ hpair (Int.le_refl _), iff_of_true (clean_of_idle hkept hidle rfl) fun _ => ?_⟩
    rwa [hrootId]
  · next hcond =>
    obtain ⟨x, a', hend, hsound', hview⟩ := hend
    have hpair : (s.agent.endedAlong path).pinpointEndTrace t.root raises = (invalidNode, a') := by
      simp only [pinpointEndTrace, hend]
    refine ⟨_, heq _ _ hpair (by decide), iff_of_false (not_clean_of_live (f := [t]) ?_ ?_) fun hmeets => hcond ?_⟩
    · exact h.of_view hsound' (hview.trans (view_endedAlong s.agent path)) rfl
    · simp [Trace.nodes]
    · have hgood := hmeets hlive
      rwa [hrootId] at hgood

private theorem rshutdown_phase (h : s.Kept f) (hphase : s.Phase f) (raises : Bool) :
    ∃ s', s.rshutdown raises = some s' ∧ (s'.Clean ↔ s.ShutdownMeets raises) := by
  have hstands := hphase
  cases hphase with
  | idle =>
    obtain ⟨s', hs', hclean⟩ := rshutdown_idle h hstands raises
    refine ⟨s', hs', iff_of_true hclean fun hlive => ?_⟩
    simpa using (h.sound.holds.live_iff _).1 hlive
  | opened => exact rshutdown_opened h hstands raises

end Shutdown

private theorem kept_init {w : World} (hok : w.Ok) (hempty : ∀ id, ¬w.agent.pool.Live id) :
    (init w.agent).Kept [] ∧ (init w.agent).Phase [] := by
  have hforest : w.forest = [] := by
    refine List.eq_nil_iff_forall_not_mem.2 fun t ht => ?_
    exact hempty t.root (hok.holds.live_of_mem ht List.mem_cons_self)
  have hok' : World.Ok ⟨w.agent, []⟩ := hforest ▸ hok
  refine ⟨⟨⟨hok', fun id hlive => absurd hlive (hempty id)⟩, nofun, nofun⟩, .idle (Int.le_refl _) nofun⟩

/-- A request that begins on a pool without live nodes leaves nothing behind if and only if every start
found a node to take, and every span that was due, at an end or at the shutdown, was handed over without
an exception. -/
theorem request_leaves_nothing_iff (agentType : Int) (clock : Nat → Nat) (before : List ApiCall)
    (hempty : ∀ id, ¬((World.new agentType clock).run before).agent.pool.Live id) (calls : List PhpCall)
    (hclear : ∀ call ∈ calls, ¬call.Collides) {s : PhpRequest}
    (hrun : exec step (init ((World.new agentType clock).run before).agent) calls = some s) (raises : Bool) :
    ∃ s', s.rshutdown raises = some s' ∧
      (s'.Clean ↔ Along step Meets (init ((World.new agentType clock).run before).agent) calls ∧
        s.ShutdownMeets raises) := by
  obtain ⟨hkept, hphase⟩ := kept_init ((World.ok_new agentType clock).run before) hempty
  obtain ⟨hgood, hbad⟩ := exec_phase hkept hphase hclear hrun
  by_cases hmeets : Along step Meets (init ((World.new agentType clock).run before).agent) calls
  · obtain ⟨f, hkept', hphase'⟩ := hgood hmeets
    obtain ⟨s', hs', hiff⟩ := rshutdown_phase hkept' hphase' raises
    exact ⟨s', hs', hiff.trans (and_iff_right hmeets).symm⟩
  · obtain ⟨f, hkept', hlost⟩ := hbad hmeets
    obtain ⟨s', hs', hkept''⟩ := rshutdown_lost hkept' hlost raises
    exact ⟨s', hs', iff_of_false (not_clean_of_live hkept'' hlost.nodes) fun hall => hmeets hall.1⟩

theorem request_leaves_nothing_iff_one_child :
    ∃ s s', exec step (init ((World.new 1700 id).run [.startTrace 0 [], .endTrace 128 false]).agent)
        [.startTrace, .startTrace, .annotate (.addClue 127 "k" "v" 0), .endTrace false] = some s ∧
      s.rshutdown false = some s' ∧ s'.Clean := by
  have hforest : ((World.new 1700 id).run [.startTrace 0 [], .endTrace 128 false]).forest.nodes = [] := by
    decide +kernel
  have hempty : ∀ n, ¬((World.new 1700 id).run [.startTrace 0 [], .endTrace 128 false]).agent.pool.Live n := by
    intro n hlive
    have hmem := (((World.ok_new 1700 id).run [.startTrace 0 [], .endTrace 128 false]).holds.live_iff n).1 hlive
    rw [hforest] at hmem
    exact List.not_mem_nil hmem
  obtain ⟨s', hs', hiff⟩ := request_leaves_nothing_iff 1700 id [.startTrace 0 [], .endTrace 128 false] hempty
    [.startTrace, .startTrace, .annotate (.addClue 127 "k" "v" 0), .endTrace false] (by decide) rfl false
  exact ⟨_, s', rfl, hs', hiff.2 ⟨by decide +kernel, by decide +kernel⟩⟩

section PoolLimit

/-- A request that has only started nodes: all of them are live, and the pool is within its bound. -/
structure Filling (s : PhpRequest) : Prop where
  sound : ∃ f, s.agent.Sound f
  current : s.perThreadId = rootNode ∨ s.agent.pool.Live s.perThreadId
  nodup : s.started.Nodup
  live_iff : ∀ id, s.agent.pool.Live id ↔ id ∈ s.started
  maxId_le : s.agent.pool.maxId ≤ poolMaxNodesLimit + cellSize

private theorem Filling.startTrace (h : s.Filling) (hready : ¬s.agent.pool.Exhausted) :
    s.startTrace.Filling ∧ s.startTrace.started.length = s.started.length + 1 := by
  obtain ⟨f, hsound⟩ := h.sound
  obtain ⟨id, a', hstart, htaken⟩ | ⟨-, hfull | ⟨hne, hdead⟩⟩ := pinpointStartTrace_spec hsound s.perThreadId
  · rw [startTrace_taken hstart htaken.live.ne_invalidNode]
    refine ⟨⟨⟨_, htaken.sound⟩, .inr htaken.live, ?_, ?_, ?_⟩, rfl⟩
    · exact List.nodup_cons.2 ⟨fun hmem => htaken.dead ((h.live_iff id).2 hmem), h.nodup⟩
    · intro other
      rw [htaken.live_iff, h.live_iff, List.mem_cons]
    · exact htaken.maxId.2.trans (max_le h.maxId_le (Int.le_refl _))
  · exact absurd hfull hready
  · exact absurd (h.current.resolve_left hne) hdead

private theorem Filling.length_le (h : s.Filling) : s.started.length ≤ 12928 := by
  have hsubset : s.started.toFinset ⊆ Finset.Icc (1 : Int) 12928 := by
    intro id hid
    have hlive := PoolManager.live_iff.1 ((h.live_iff id).2 (List.mem_toFinset.1 hid))
    have hmax := h.maxId_le
    simp only [poolMaxNodesLimit, cellSize] at hmax
    exact Finset.mem_Icc.2 ⟨by omega, by omega⟩
  have hcard := Finset.card_le_card hsubset
  rwa [List.toFinset_card_of_nodup h.nodup, Int.card_Icc] at hcard

private theorem Filling.starts (h : s.Filling) (n : Nat) (hmeets : Along step Meets s (List.replicate n .startTrace)) :
    ∃ s' : PhpRequest, s'.Filling ∧ s'.started.length = s.started.length + n := by
  induction n generalizing s with
  | zero => exact ⟨s, h, rfl⟩
  | succ n ih =>
    obtain ⟨hready, hrest⟩ := hmeets
    obtain ⟨hnext, hlength⟩ := h.startTrace hready
    obtain ⟨s', hfilling, hlength'⟩ := ih hnext (hrest _ rfl)
    exact ⟨s', hfilling, by omega⟩

private theorem exec_starts (s : PhpRequest) (n : Nat) : ∃ s', exec step s (List.replicate n .startTrace) = some s' := by
  induction n generalizing s with
  | zero => exact ⟨s, rfl⟩
  | succ n ih => exact ih s.startTrace

/-- The start after the 12928th finds the pool exhausted; the shutdown then ends no node. -/
theorem start_past_limit_leaks :
    ∃ s s', exec step (init (World.new 1700 id).agent) (List.replicate 12929 .startTrace) = some s ∧
      s.perThreadId = invalidNode ∧ s.rshutdown false = some s' ∧
      ∃ n ∈ s'.started, n - 1 ∉ s'.agent.pool.freeNodeList := by
  have hdead : ∀ n, ¬(World.new 1700 id).agent.pool.Live n := fun n hlive =>
    List.not_mem_nil (((World.ok_new 1700 id).holds.live_iff n).1 hlive)
  obtain ⟨hkept, hphase⟩ := kept_init (World.ok_new 1700 id) hdead
  have hfilling : (init (World.new 1700 id).agent).Filling :=
    ⟨⟨[], hkept.sound⟩, .inl rfl, List.nodup_nil, fun n => iff_of_false (hdead n) List.not_mem_nil, by decide +kernel⟩
  have hnot : ¬Along step Meets (init (World.new 1700 id).agent) (List.replicate 12929 .startTrace) := by
    intro hmeets
    obtain ⟨s', hfull, hlength⟩ := hfilling.starts 12929 hmeets
    have hle := hfull.length_le
    rw [hlength] at hle
    exact absurd hle (by decide)
  obtain ⟨s, hrun⟩ := exec_starts (init (World.new 1700 id).agent) 12929
  have hclear : ∀ call ∈ List.replicate 12929 PhpCall.startTrace, ¬call.Collides := by
    intro call hcall
    rw [List.eq_of_mem_replicate hcall]
    exact not_false
  obtain ⟨f, hkept', hlost⟩ := (exec_phase hkept hphase hclear hrun).2 hnot
  obtain ⟨s', hs', hkept''⟩ := rshutdown_lost hkept' hlost false
  exact ⟨s, s', hrun, hlost.current, hs', exists_leaked hkept'' hlost.nodes⟩

end PoolLimit

end PhpRequest

end PinpointAgent.Agent
