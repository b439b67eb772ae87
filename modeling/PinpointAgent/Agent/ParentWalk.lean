import PinpointAgent.Agent.EncoderKeys
import PinpointAgent.Framework.Ascent

/-!
# Ending a trace from one of its nodes

`pinpoint_force_end_trace` and the shutdown of a request end a node, then the parent that this
reports, and so on. The parents of a node are in its trace, each a level above, so the walk passes
nodes that are no roots and comes to the root of the trace; until then no link is touched.
-/

namespace PinpointAgent.Agent

open Framework NodePool

def parentOf (a : Agent) (id : Int) : Int := (a.pool.nodeAt id).parentId

/-- The agent after `EndTrace` of the nodes of `path`, none of them a root. -/
def endedAlong (a : Agent) (path : List Int) : Agent := path.foldl endedNode a

variable {a : Agent} {f : Forest} {t : Trace} {id : Int}

theorem parentOf_of_view {b : Agent} (h : b.view = a.view) : b.parentOf = a.parentOf := by
  funext id
  exact congrArg Shape.parentId (congrFun (congrArg PoolView.shape h) (id - 1))

theorem view_endedAlong (a : Agent) (path : List Int) : (a.endedAlong path).view = a.view := by
  induction path generalizing a with
  | nil => rfl
  | cons id path ih => exact (ih (a.endedNode id)).trans (view_endedNode a id)

theorem eventsOpen_endedAlong (h : a.EventsOpen) (path : List Int) : (a.endedAlong path).EventsOpen := by
  induction path generalizing a with
  | nil => exact h
  | cons id path ih => exact ih (eventsOpen_endedNode h id)

private theorem rootNodeExtra_stamp (n : TraceNode) (expired : Int) (members : Members) :
    { n with expiredTime := expired, value := members }.rootNodeExtra = n.rootNodeExtra := rfl

theorem rootExtra_endedNode (a : Agent) (id root : Int) :
    (a.endedNode id).pool.rootExtra root = a.pool.rootExtra root := by
  unfold PoolManager.rootExtra endedNode
  by_cases heq : root = id
  · subst heq
    rw [PoolManager.nodeAt_modifyNode_self, TraceNode.endTrace, rootNodeExtra_stamp]
  · rw [PoolManager.nodeAt_modifyNode_of_ne _ heq]

theorem rootExtra_endedAlong (a : Agent) (path : List Int) (root : Int) :
    (a.endedAlong path).pool.rootExtra root = a.pool.rootExtra root := by
  induction path generalizing a with
  | nil => rfl
  | cons id path ih =>
    exact (ih (a.endedNode id)).trans (rootExtra_endedNode a id root)

theorem spans_endedAlong (a : Agent) (path : List Int) : (a.endedAlong path).spans = a.spans := by
  induction path generalizing a with
  | nil => rfl
  | cons id path ih => exact (ih (a.endedNode id)).trans rfl

/-- From every node of a trace the parents lead to its root, in fewer rounds than the pool has
nodes. -/
theorem exists_path (h : Holds a.pool f []) (ht : t ∈ f) (hid : id ∈ t.nodes) :
    ∃ path, Ascends a.parentOf t.root id path ∧ (∀ k ∈ path, k ∈ t.nodes) ∧
      path.length ≤ a.pool.maxId.toNat := by
  have hok := h.ok t ht
  have hup : ∀ k ∈ t.nodes, k ≠ t.root → a.parentOf k ∈ t.nodes ∧
      (a.pool.nodeAt (a.parentOf k)).depth < (a.pool.nodeAt k).depth := by
    intro k hk hne
    have hkid := (List.mem_cons.1 hk).resolve_left hne
    obtain ⟨i, hi⟩ := List.mem_iff_getElem?.1 hkid
    obtain ⟨parent, hparent, hshape⟩ := hok.kid i k hi
    have hparentId : a.parentOf k = parent := congrArg Shape.parentId hshape
    have hdepth : (a.pool.nodeAt k).depth = (a.pool.nodeAt parent).depth + 1 := congrArg Shape.depth hshape
    rw [hparentId]
    exact ⟨hparent, by omega⟩
  obtain ⟨path, hascends, hmem, hlength⟩ := exists_ascent hup hid
  have hle := (h.detach ht).length_le
  rw [List.length_append] at hle
  exact ⟨path, hascends, hmem, by omega⟩

theorem not_isRootNode (h : Holds a.pool f []) (ht : t ∈ f) (hid : id ∈ t.nodes) (hne : id ≠ t.root) :
    ¬(a.pool.nodeAt id).isRootNode = true := by
  rw [(h.ok t ht).isRootNode_iff hid]
  exact hne.symm

end PinpointAgent.Agent
