import PinpointAgent.Agent.PhpRequest

/-!
# Forced unwinding

`pinpoint_force_end_trace` and `PHP_RSHUTDOWN` call `EndTrace` on a node, then on what that returned,
and so on until it returned `E_ROOT_NODE`. The calls are made on the ancestors of the node, one
after the other, as many as it is deep; the last one, on the root, sends the span and frees the tree.
-/

namespace PinpointAgent.Agent

open Framework NodePool

/-- The calls of `EndTrace` from `id` on, each on the result of the one before it, until one returns
`E_ROOT_NODE`. -/
inductive EndCalls (raises : Bool) : Agent → Int → List Int → Agent → Prop
  | last {a b : Agent} {id : Int} (hend : endTrace id raises a = .ok rootNode b) :
      EndCalls raises a id [id] b
  | next {a a' b : Agent} {id parent : Int} {ids : List Int} (hend : endTrace id raises a = .ok parent a')
      (hparent : rootNode < parent) (hrest : EndCalls raises a' parent ids b) :
      EndCalls raises a id (id :: ids) b

/-- The tree of `id` was closed by the calls on `ids`. -/
structure Unwound (a : Agent) (id : Int) (ids : List Int) (b : Agent) : Prop where
  calls : EndCalls false a id ids b
  rounds : (ids.length : Int) = (a.pool.nodeAt id).depth + 1
  /-- the ancestors: each is the parent of the one before it, and the last one is the root -/
  ancestors : ids.IsChain (fun child parent => a.parentOf child = parent) ∧ ids.head? = some id ∧
    ids.getLast? = some (a.pool.nodeAt id).rootId
  spans : b.spans = a.spans ∨ ∃ span, b.spans = a.spans ++ [span]
  gone : ∀ other, a.pool.Live other → (a.pool.nodeAt other).rootId = (a.pool.nodeAt id).rootId →
    ¬b.pool.Live other

variable {a b : Agent} {f : Forest} {t : Trace} {id : Int} {ids path : List Int} {raises : Bool}

private theorem EndCalls.forceEndLoop (h : EndCalls raises a id ids b) (hid : rootNode < id) (fuel : Nat) :
    Agent.forceEndLoop raises (ids.length + fuel) id a = .ok () b := by
  induction h with
  | last hend =>
    rw [List.length_singleton, Nat.add_comm, Agent.forceEndLoop, if_neg hid.ne', bind_of_ok _ hend,
      if_neg (by decide)]
    cases fuel <;> rfl
  | @next a a' b id parent ids hend hparent _ ih =>
    have hvalid : parent ≠ invalidNode := by
      rintro rfl
      exact absurd hparent (by decide)
    rw [List.length_cons, Nat.add_right_comm, Agent.forceEndLoop, if_neg hid.ne', bind_of_ok _ hend, if_neg hvalid]
    exact ih hparent

private theorem EndCalls.shutdownLoop (h : EndCalls raises a id ids b) (hid : rootNode < id) (fuel : Nat) :
    PhpRequest.shutdownLoop raises (ids.length + fuel) id a = some b := by
  induction h with
  | last hend =>
    rw [List.length_singleton, Nat.add_comm, PhpRequest.shutdownLoop, if_pos hid]
    simp only [pinpointEndTrace, hend]
    cases fuel <;> rfl
  | next hend hparent _ ih =>
    rw [List.length_cons, Nat.add_right_comm, PhpRequest.shutdownLoop, if_pos hid]
    simp only [pinpointEndTrace, hend]
    exact ih hparent

private theorem EndCalls.not_done (h : EndCalls raises a id ids b) (hid : rootNode < id) {fuel : Nat}
    (hfuel : fuel < ids.length) :
    (∃ a', Agent.forceEndLoop raises fuel id a = .error .diverged a') ∧
      PhpRequest.shutdownLoop raises fuel id a = none := by
  induction h generalizing fuel with
  | @last a b id hend =>
    obtain rfl : fuel = 0 := by simpa using hfuel
    rw [Agent.forceEndLoop, if_neg hid.ne', PhpRequest.shutdownLoop, if_pos hid]
    exact ⟨⟨a, rfl⟩, rfl⟩
  | @next a a' b id parent ids hend hparent _ ih =>
    cases fuel with
    | zero =>
      rw [Agent.forceEndLoop, if_neg hid.ne', PhpRequest.shutdownLoop, if_pos hid]
      exact ⟨⟨a, rfl⟩, rfl⟩
    | succ fuel =>
      have hvalid : parent ≠ invalidNode := by
        rintro rfl
        exact absurd hparent (by decide)
      obtain ⟨hforce, hshutdown⟩ := ih hparent (Nat.lt_of_succ_lt_succ hfuel)
      rw [Agent.forceEndLoop, if_neg hid.ne', bind_of_ok _ hend, if_neg hvalid, PhpRequest.shutdownLoop, if_pos hid]
      simp only [pinpointEndTrace, hend]
      exact ⟨hforce, hshutdown⟩

theorem depth_eq_length (h : Holds a.pool f []) (ht : t ∈ f) (hpath : Ascends a.parentOf t.root id path)
    (hmem : ∀ k ∈ path, k ∈ t.nodes) : (a.pool.nodeAt id).depth = path.length := by
  induction path generalizing id with
  | nil =>
    obtain rfl : id = t.root := hpath
    exact congrArg Shape.depth (h.ok t ht).root
  | cons k path ih =>
    obtain ⟨rfl, hne, hrest⟩ := hpath
    obtain ⟨i, hi⟩ := List.mem_iff_getElem?.1 ((List.mem_cons.1 (hmem id List.mem_cons_self)).resolve_left hne)
    obtain ⟨parent, -, hshape⟩ := (h.ok t ht).kid i id hi
    have hparentId : a.parentOf id = parent := congrArg Shape.parentId hshape
    have hdepth : (a.pool.nodeAt id).depth = (a.pool.nodeAt parent).depth + 1 := congrArg Shape.depth hshape
    have hparent := ih hrest fun k hk => hmem k (List.mem_cons_of_mem _ hk)
    rw [hparentId] at hparent
    rw [hdepth, hparent, List.length_cons]
    push_cast
    rfl

private theorem isChain_ascent {parent : Int → Int} {root : Int} (hpath : Ascends parent root id path) :
    (path ++ [root]).IsChain (fun child p => parent child = p) ∧ (path ++ [root]).head? = some id := by
  induction path generalizing id with
  | nil =>
    obtain rfl : id = root := hpath
    exact ⟨.singleton id, rfl⟩
  | cons k path ih =>
    obtain ⟨rfl, -, hrest⟩ := hpath
    obtain ⟨hchain, hhead⟩ := ih hrest
    refine ⟨?_, rfl⟩
    rw [List.cons_append, List.isChain_cons]
    refine ⟨fun next hnext => ?_, hchain⟩
    rw [hhead] at hnext
    exact Option.some.inj hnext

private theorem endCalls_ascent (h : Holds a.pool f []) (ht : t ∈ f) (hpath : Ascends a.parentOf t.root id path)
    (hmem : ∀ k ∈ path, k ∈ t.nodes) (hroot : endTrace t.root raises (a.endedAlong path) = .ok rootNode b) :
    EndCalls raises a id (path ++ [t.root]) b := by
  induction path generalizing a id with
  | nil =>
    obtain rfl : id = t.root := hpath
    exact .last hroot
  | cons k path ih =>
    obtain ⟨rfl, hne, hrest⟩ := hpath
    have hin : id ∈ t.nodes := hmem id List.mem_cons_self
    have hview := view_endedNode a id
    have hend := endTrace_child (h.live_of_mem ht hin) (not_isRootNode h ht hin hne) raises
    have hparent := (pinpointEndTrace_child h ht hin hne raises).2
    refine .next hend (h.live_of_mem ht hparent).pos (ih (h.congr hview) ?_ ?_ hroot)
    · rwa [parentOf_of_view hview]
    · exact fun k hk => hmem k (List.mem_cons_of_mem _ hk)

private theorem spans_endTrace_root (h : a.Sound f) (ht : t ∈ f) (hend : endTrace t.root false a = .ok rootNode b) :
    b.spans = a.spans ∨ ∃ span, b.spans = a.spans ++ [span] := by
  have hdeliver : a.Deliverable t false :=
    (deliverable_iff_of_open h.holds ht h.eventsOpen false).2 fun _ => rfl
  have hspec := endTrace_root h.holds ht false
  rw [if_pos hdeliver] at hspec
  obtain ⟨c, q, hc, -, hend', -⟩ := hspec
  rw [hend] at hend'
  cases hend'
  have hevent := h.eventsOpen t.root (h.holds.live_of_mem ht List.mem_cons_self)
  rw [deliverRoot_eq h.holds ht] at hc
  by_cases hpass : (a.pool.rootExtra t.root).status = tracePass
  · rw [if_neg (not_not.2 hpass), if_pos (.inr hevent), if_neg Bool.false_ne_true] at hc
    cases hc
    exact .inr (spans_handedOver a t)
  · rw [if_pos hpass] at hc
    cases hc
    exact .inl rfl

private theorem exists_unwound (h : a.Sound f) (hlive : a.pool.Live id) :
    ∃ ids b, Unwound a id ids b ∧ ids.length ≤ a.pool.maxId.toNat + 1 := by
  obtain ⟨t, ht, hid⟩ := h.holds.exists_trace hlive
  obtain ⟨path, hpath, hmem, hlength⟩ := exists_path h.holds ht hid
  have hsound := h.endedAlong path
  have hview := view_endedAlong a path
  have hroot := endTrace_root_sound hsound ht false
  rw [if_pos fun _ => rfl] at hroot
  obtain ⟨b, hend, hfreed⟩ := hroot
  obtain ⟨hchain, hhead⟩ := isChain_ascent hpath
  have hrootId := ((h.holds.ok t ht).node_ids hid).2
  refine ⟨path ++ [t.root], b, ?_, by rw [List.length_append]; exact Nat.succ_le_succ hlength⟩
  exact {
    calls := endCalls_ascent h.holds ht hpath hmem hend
    rounds := by
      rw [depth_eq_length h.holds ht hpath hmem, List.length_append]
      push_cast
      rfl
    ancestors := ⟨hchain, hhead, by rw [List.getLast?_append, hrootId]; rfl⟩
    spans := spans_endedAlong a path ▸ spans_endTrace_root hsound ht hend
    gone := fun other _ hother hlive' => by
      obtain ⟨t', ht', hother'⟩ := hfreed.sound.holds.exists_trace hlive'
      obtain ⟨ht', hne⟩ := List.mem_filter.1 ht'
      have hrootId' := ((h.holds.ok t' ht').node_ids hother').2
      exact of_decide_eq_true hne (hrootId'.symm.trans (hother.trans hrootId)) }

private theorem pinpointForceEndTrace_dead (hdead : ¬a.pool.Live id) (hid : id ≠ rootNode) (raises : Bool) :
    a.pinpointForceEndTrace id raises = (invalidNode, a) := by
  obtain ⟨e, he, _⟩ := referNode_of_dead hdead
  have hend : endTrace id raises a = .error e a := by rw [endTrace, bind_of_error _ he]
  unfold pinpointForceEndTrace
  rw [Agent.forceEndLoop, if_neg hid, bind_of_error _ hend]

private theorem sound_run {w : World} (h : w.agent.Sound w.forest) {calls : List ApiCall}
    (hclear : ∀ call ∈ calls, ¬call.Collides) : (w.run calls).agent.Sound (w.run calls).forest := by
  induction calls generalizing w with
  | nil => exact h
  | cons call calls ih =>
    exact ih (w := w.step call) (h.after (hclear call List.mem_cons_self))
      fun other hother => hclear other (List.mem_cons_of_mem _ hother)

/-- From every live node of a reachable agent the forced end and the shutdown call `EndTrace` on its
ancestors, once each, and close the tree; a number that is no live node is refused. -/
theorem forced_end_unwinds (agentType : Int) (clock : Nat → Nat) {calls : List ApiCall} {a : Agent}
    (hclear : ∀ call ∈ calls, ¬call.Collides) (hrun : ((World.new agentType clock).run calls).agent = a) :
    (∀ id, a.pool.Live id → ∃ ids b, Unwound a id ids b ∧
      (∀ fuel, ids.length ≤ fuel → Agent.forceEndLoop false fuel id a = .ok () b ∧
        PhpRequest.shutdownLoop false fuel id a = some b) ∧
      (∀ fuel, fuel < ids.length → (∃ a', Agent.forceEndLoop false fuel id a = .error .diverged a') ∧
        PhpRequest.shutdownLoop false fuel id a = none) ∧
      a.pinpointForceEndTrace id false = (rootNode, b) ∧
      ∀ s : PhpRequest, s.agent = a → s.perThreadId = id → s.rshutdown false = some (s.moveTo rootNode b)) ∧
      ∀ id, ¬a.pool.Live id → id ≠ rootNode → ∀ raises, a.pinpointForceEndTrace id raises = (invalidNode, a) := by
  have hsound : a.Sound ((World.new agentType clock).run calls).forest :=
    hrun ▸ sound_run (w := World.new agentType clock) (Agent.sound_new agentType clock) hclear
  refine ⟨fun id hlive => ?_, fun id hdead hid raises => pinpointForceEndTrace_dead hdead hid raises⟩
  obtain ⟨ids, b, hunwound, hbound⟩ := exists_unwound hsound hlive
  have hloops : ∀ fuel, ids.length ≤ fuel → Agent.forceEndLoop false fuel id a = .ok () b ∧
      PhpRequest.shutdownLoop false fuel id a = some b := by
    intro fuel hfuel
    obtain ⟨more, rfl⟩ := Nat.exists_eq_add_of_le hfuel
    exact ⟨hunwound.calls.forceEndLoop hlive.pos more, hunwound.calls.shutdownLoop hlive.pos more⟩
  refine ⟨ids, b, hunwound, hloops, fun fuel => hunwound.calls.not_done hlive.pos, ?_, ?_⟩
  · unfold pinpointForceEndTrace
    rw [(hloops _ hbound).1]
  · rintro s rfl rfl
    rw [PhpRequest.rshutdown, (hloops _ hbound).2]
    rfl

/-- A root and a child below a child: three calls close the tree. -/
theorem forced_end_unwinds_depth_two :
    ∃ ids b, Unwound ((World.new 1500 fun n => n).run [.startTrace 0 [], .startTrace 128 [], .startTrace 127 []]).agent
      126 ids b := by
  have hlive : ((World.new 1500 fun n => n).run
      [.startTrace 0 [], .startTrace 128 [], .startTrace 127 []]).agent.pool.Live 126 := by
    decide +kernel
  obtain ⟨ids, b, hunwound, -⟩ := (forced_end_unwinds 1500 (fun n => n) (by decide) rfl).1 126 hlive
  exact ⟨ids, b, hunwound⟩

end PinpointAgent.Agent
