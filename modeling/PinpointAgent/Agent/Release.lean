import PinpointAgent.Agent.World
/-!
# When the end of a root releases its tree

`EndTrace` of a root frees the tree after the span was encoded and handed over, so an
exception on the way skips `FreeNodeTree`: the caller gets `E_INVALID_NODE` and every node
of the trace stays in use. `AppendAnnotation("event", ..)` is such an exception, and a clue
named `event` on the root provokes it.
-/

namespace PinpointAgent.Agent

open Framework NodePool

/-- The outcome of ending the root of `t`: the answer `E_ROOT_NODE`, every node ever started
in `t` on the free list, and every other node as alive as before. -/
structure Released (a : Agent) (t : Trace) (outcome : Int × Agent) : Prop where
  answer : outcome.1 = rootNode
  freed : ∀ id ∈ t.nodes, ¬outcome.2.pool.Live id ∧ id - 1 ∈ outcome.2.pool.freeNodeList
  kept : ∀ id, a.pool.Live id → id ∉ t.nodes → outcome.2.pool.Live id

variable {a : Agent} {f : Forest} {t : Trace}

private theorem mem_nodes_finish {id : Int} (h : Holds a.pool f []) (ht : t ∈ f)
    (hid : id ∈ f.nodes) : id ∈ t.nodes ∨ id ∈ (f.finish t.root).nodes := by
  by_cases hin : id ∈ t.nodes
  · exact .inl hin
  · right
    have hmem := ((h.detach ht).live_iff id).1 ((h.live_iff id).2 hid)
    exact (List.mem_append.1 hmem).resolve_left hin

private theorem released_of_finished {a' : Agent} (h : Holds a.pool f []) (ht : t ∈ f)
    (hholds : Holds a'.pool (f.finish t.root) []) (hmax : a'.pool.maxId = a.pool.maxId) :
    Released a t (rootNode, a') := by
  have hloose := h.detach ht
  refine ⟨rfl, ?_, ?_⟩
  · intro id hid
    have hdead : ¬a'.pool.Live id := by
      rw [hholds.live_iff]
      intro hin
      exact (List.disjoint_of_nodup_append hloose.nodup) hid hin
    refine ⟨hdead, (hholds.alloc.mem_free _).2 ?_⟩
    have hlive := PoolManager.live_iff.1 (h.live_of_mem ht hid)
    refine ⟨hlive.1, by rw [hmax]; exact hlive.2.1, ?_⟩
    by_contra hused
    exact hdead (PoolManager.live_iff.2 ⟨hlive.1, by rw [hmax]; exact hlive.2.1,
      Bool.eq_true_of_not_eq_false hused⟩)
  · intro id hlive hnotin
    rw [hholds.live_iff]
    have hmem : id ∈ f.nodes := by simpa using (h.live_iff id).1 hlive
    exact (mem_nodes_finish h ht hmem).resolve_left hnotin

theorem pinpointEndTrace_released_iff (h : Holds a.pool f []) (ht : t ∈ f) (raises : Bool) :
    Released a t (pinpointEndTrace a t.root raises) ↔ a.Deliverable t raises := by
  have hspec := endTrace_root h ht raises
  split at hspec
  · next hcond =>
    obtain ⟨b, q, _, _, hend, hholds, hmax, _⟩ := hspec
    have hout : pinpointEndTrace a t.root raises = (rootNode, { b with pool := q }) := by
      simp only [pinpointEndTrace, hend]
    rw [hout]
    exact iff_of_true (released_of_finished h ht hholds hmax) hcond
  · next hcond =>
    obtain ⟨e, b, _, _, hend, _⟩ := hspec
    have hout : (pinpointEndTrace a t.root raises).1 = invalidNode := by
      simp only [pinpointEndTrace, hend]
    refine iff_of_false (fun hrel => ?_) hcond
    exact absurd (hout.symm.trans hrel.answer) (by decide)

/-- `pinpoint_end_trace` of a live root releases its whole tree if and only if the trace is
dropped, or neither the hand-over throws nor a child meets an `event` member of the root that
is no array. -/
theorem end_trace_releases_iff (agentType : Int) (clock : Nat → Nat) (calls : List ApiCall) (r : Int)
    (raises : Bool) (hlive : ((World.new agentType clock).run calls).agent.pool.Live r)
    (hroot : IsRoot ((World.new agentType clock).run calls).agent.pool r) :
    ∃ t ∈ ((World.new agentType clock).run calls).forest, t.root = r ∧
      (Released ((World.new agentType clock).run calls).agent t
          (pinpointEndTrace ((World.new agentType clock).run calls).agent r raises) ↔
        ((World.new agentType clock).run calls).agent.Deliverable t raises) := by
  have h := ((World.ok_new agentType clock).run calls).holds
  obtain ⟨t, ht, rfl⟩ := exists_trace_of_root h hlive hroot.2.1
  exact ⟨t, ht, rfl, pinpointEndTrace_released_iff h ht raises⟩

theorem end_trace_releases_iff_two_kids :
    ∃ t ∈ ((World.new 1500 id).run twoKids).forest, t.root = 128 ∧
      (Released ((World.new 1500 id).run twoKids).agent t
          (pinpointEndTrace ((World.new 1500 id).run twoKids).agent 128 false) ↔
        ((World.new 1500 id).run twoKids).agent.Deliverable t false) :=
  end_trace_releases_iff 1500 id twoKids 128 false (by decide +kernel) (by decide +kernel)

/-- A root with one child and a clue named `event`. -/
def eventClue : List ApiCall :=
  [.startTrace 0 [], .startTrace 128 [], .addClue 128 "event" "x" 0]

/-- The clue is accepted, and the end of the root then throws: it answers `E_INVALID_NODE`
and both nodes stay in use. -/
theorem event_clue_leaks :
    let a := ((World.new 1500 id).run eventClue).agent
    a.pool.Live 128 ∧ IsRoot a.pool 128 ∧ (pinpointEndTrace a 128 false).1 = invalidNode ∧
      (pinpointEndTrace a 128 false).2.pool.Live 128 ∧
      (pinpointEndTrace a 128 false).2.pool.Live 127 := by
  decide +kernel

end PinpointAgent.Agent
