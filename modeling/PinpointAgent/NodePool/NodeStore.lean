import PinpointAgent.Framework.FreeList
import PinpointAgent.Framework.Interleaving
import PinpointAgent.NodePool.PoolManager
/-!
# The representation of the node pool

`PoolManager` as it lies in memory: `usedNodeSet_` is a vector of bits, `nodeIndexVec` a
vector of cells of 128 nodes, `_freeNodeList` a stack of indices. The three are updated
separately by `expandOnce`, `getReadyNode` and `returnNode`. Here they are shown to stay in
step for all sequences of calls, whatever identifiers the calls are made with and whatever the
callers write into the nodes meanwhile.
-/

namespace PinpointAgent.NodePool

open Framework

/-- The members of `PoolManager`. -/
structure NodeStore where
  usedNodeSet : List Bool
  maxId : Nat
  /-- The stack of free indices, its top first. -/
  freeNodeList : List Nat
  nodeIndexVec : List (List TraceNode)

namespace NodeStore

/-- `usedNodeSet_.at(index)` is read for an index below `maxId` only. -/
def indexInUsedVec (s : NodeStore) (index : Int) : Bool :=
  decide (0 ≤ index) && decide (index < s.maxId) && s.usedNodeSet.getD index.toNat false

def Live (s : NodeStore) (id : Int) : Prop := s.indexInUsedVec (id - 1) = true

instance decidableLive (s : NodeStore) (id : Int) : Decidable (s.Live id) :=
  inferInstanceAs (Decidable (_ = true))

def node (s : NodeStore) (index : Nat) : TraceNode :=
  (s.nodeIndexVec.getD (index / cellSize) []).getD (index % cellSize) {}

def setNode (s : NodeStore) (index : Nat) (n : TraceNode) : NodeStore :=
  { s with
    nodeIndexVec := s.nodeIndexVec.modify (index / cellSize) (·.set (index % cellSize) n) }

def expandOnce (s : NodeStore) : NodeStore where
  nodeIndexVec := s.nodeIndexVec ++ [List.replicate cellSize {}]
  usedNodeSet := s.usedNodeSet ++ List.replicate cellSize false
  freeNodeList := (List.range' s.maxId cellSize).reverse ++ s.freeNodeList
  maxId := s.maxId + cellSize

def new : NodeStore := expandOnce ⟨[], 0, [], []⟩

def popReady (s : NodeStore) (index : Nat) (rest : List Nat) : Int × NodeStore :=
  ((index : Int) + 1,
    { s with freeNodeList := rest, usedNodeSet := s.usedNodeSet.set index true }.setNode index
      ((s.node index).reset ((index : Int) + 1)))

def getReadyNode (s : NodeStore) : Except AgentError (Int × NodeStore) :=
  match s.freeNodeList with
  | index :: rest => .ok (s.popReady index rest)
  | [] =>
    if poolMaxNodesLimit < s.maxId then .error .poolLimit
    else .ok (s.expandOnce.popReady (s.maxId + (cellSize - 1)) s.expandOnce.freeNodeList.tail)

def getUsedNode (s : NodeStore) (id : Int) : Except AgentError TraceNode :=
  if id = rootNode then .error .idZero
  else if s.indexInUsedVec (id - 1) then .ok (s.node (id - 1).toNat)
  else .error (.notAlive id)

def release (s : NodeStore) (index : Nat) : NodeStore :=
  { s with usedNodeSet := s.usedNodeSet.set index false, freeNodeList := index :: s.freeNodeList }

def returnNode (s : NodeStore) (id next : Int) (force : Bool) : Bool × Int × NodeStore :=
  if s.indexInUsedVec (id - 1) then
    if (s.node (id - 1).toNat).referenceCount ≠ 0 ∧ force = false then (false, next, s)
    else (true, (s.node (id - 1).toNat).next, s.release (id - 1).toNat)
  else (true, next, s)

def returnNodeLoop (s : NodeStore) (id : Int) : Nat → Int × NodeStore
  | 0 => (s.returnNode id invalidNode true).2
  | tries + 1 =>
    let attempt := s.returnNode id invalidNode false
    if attempt.1 then attempt.2 else attempt.2.2.returnNodeLoop id tries

def returnNodeRetrying (s : NodeStore) (id : Int) : Int × NodeStore := s.returnNodeLoop id 1000

def freeLoop (s : NodeStore) (next : Int) : Nat → Option NodeStore
  | 0 => if next = invalidNode then some s else none
  | fuel + 1 =>
    if next = invalidNode then some s
    else
      let returned := s.returnNodeRetrying next
      returned.2.freeLoop returned.1 fuel

def freeNodeTree (s : NodeStore) (root : Int) : Option NodeStore :=
  if root = invalidNode ∨ root = rootNode then some s
  else
    let returned := s.returnNodeRetrying root
    returned.2.freeLoop returned.1 (s.maxId + 1)

def totalNodesCount (s : NodeStore) : Nat := s.nodeIndexVec.length * cellSize

def freeNodesCount (s : NodeStore) : Nat := s.freeNodeList.length

def liveNodesCount (s : NodeStore) : Nat := s.usedNodeSet.count true

/-! ### The invariant -/

def slots (s : NodeStore) : Slots := ⟨s.usedNodeSet, s.freeNodeList⟩

/-- Bitmap, stack, cells and `maxId` belong together. -/
structure WellFormed (s : NodeStore) : Prop where
  entries : s.usedNodeSet.length = s.maxId
  cells : s.maxId = cellSize * s.nodeIndexVec.length
  full : ∀ cell ∈ s.nodeIndexVec, cell.length = cellSize
  exact : s.slots.Exact

variable {s : NodeStore} {id : Int}

theorem WellFormed.expandOnce (h : s.WellFormed) : s.expandOnce.WellFormed := by
  have hslots : s.expandOnce.slots = s.slots.grow cellSize := by
    simp only [slots, Slots.grow, NodeStore.expandOnce, h.entries]
  constructor
  · simp [NodeStore.expandOnce, h.entries]
  · simp [NodeStore.expandOnce, h.cells, Nat.mul_add]
  · intro cell hcell
    simp only [NodeStore.expandOnce, List.mem_append, List.mem_singleton] at hcell
    rcases hcell with hold | rfl
    · exact h.full cell hold
    · exact List.length_replicate
  · rw [hslots]
    exact h.exact.grow cellSize

theorem wellFormed_new : new.WellFormed :=
  WellFormed.expandOnce ⟨rfl, rfl, by simp, Slots.exact_empty⟩

private theorem WellFormed.setNode (h : s.WellFormed) (index : Nat) (n : TraceNode) :
    (s.setNode index n).WellFormed := by
  refine ⟨h.entries, ?_, ?_, h.exact⟩
  · simp only [NodeStore.setNode, List.length_modify]
    exact h.cells
  · intro cell hcell
    obtain ⟨i, hi, rfl⟩ := List.mem_iff_getElem.mp hcell
    simp only [NodeStore.setNode, List.length_modify] at hi
    simp only [NodeStore.setNode, List.getElem_modify]
    split
    · rw [List.length_set]
      exact h.full _ (List.getElem_mem hi)
    · exact h.full _ (List.getElem_mem hi)

theorem WellFormed.live_iff (h : s.WellFormed) :
    s.Live id ↔ 0 ≤ id - 1 ∧ s.usedNodeSet[(id - 1).toNat]? = some true := by
  have hentries := h.entries
  simp only [Live, indexInUsedVec, Bool.and_eq_true, decide_eq_true_eq, List.getD_eq_getElem?_getD]
  constructor
  · rintro ⟨⟨hlo, hhi⟩, hbit⟩
    refine ⟨hlo, ?_⟩
    have hlt : (id - 1).toNat < s.usedNodeSet.length := by omega
    rw [List.getElem?_eq_getElem hlt] at hbit ⊢
    exact congrArg some hbit
  · rintro ⟨hlo, hbit⟩
    have hlt := (List.getElem?_eq_some_iff.mp hbit).1
    exact ⟨⟨hlo, by omega⟩, by rw [hbit]; rfl⟩

theorem WellFormed.take (h : s.WellFormed) {index : Nat} {rest : List Nat} (hfree : s.freeNodeList = index :: rest) :
    WellFormed { s with freeNodeList := rest, usedNodeSet := s.usedNodeSet.set index true } := by
  refine ⟨?_, h.cells, h.full, Slots.Exact.take h.exact hfree⟩
  rw [List.length_set]
  exact h.entries

theorem WellFormed.popReady (h : s.WellFormed) {index : Nat} {rest : List Nat}
    (hfree : s.freeNodeList = index :: rest) : (s.popReady index rest).2.WellFormed :=
  (h.take hfree).setNode _ _

private theorem WellFormed.release (h : s.WellFormed) (hlive : s.Live id) :
    (s.release (id - 1).toNat).WellFormed := by
  refine ⟨?_, h.cells, h.full, ?_⟩
  · simp only [NodeStore.release, List.length_set]
    exact h.entries
  · exact Slots.Exact.put h.exact (h.live_iff.mp hlive).2

private theorem live_set {t : NodeStore} (h : s.WellFormed) (ht : t.WellFormed) {index : Nat} {bit : Bool}
    (hindex : index < s.usedNodeSet.length) (hbits : t.usedNodeSet = s.usedNodeSet.set index bit)
    (other : Int) :
    t.Live other ↔ if other = (index : Int) + 1 then bit = true else s.Live other := by
  rw [ht.live_iff, hbits]
  by_cases hother : other = (index : Int) + 1
  · have hzero : (other - 1).toNat = index := by omega
    rw [if_pos hother, hzero, List.getElem?_set_self hindex, Option.some.injEq]
    exact and_iff_right (by omega)
  · rw [if_neg hother, h.live_iff]
    by_cases hlo : 0 ≤ other - 1
    · rw [List.getElem?_set_ne (by omega)]
    · exact iff_of_false (fun hl => hlo hl.1) (fun hl => hlo hl.1)

private theorem WellFormed.live_popReady (h : s.WellFormed) {index : Nat} {rest : List Nat}
    (hfree : s.freeNodeList = index :: rest) :
    ¬ s.Live (s.popReady index rest).1 ∧ ∀ other,
      (s.popReady index rest).2.Live other ↔ other = (s.popReady index rest).1 ∨ s.Live other := by
  have hmem : s.usedNodeSet[index]? = some false :=
    (h.exact.mem_free index).mp (by rw [slots, hfree]; exact List.mem_cons_self ..)
  have hlt := (List.getElem?_eq_some_iff.mp hmem).1
  have hid : (s.popReady index rest).1 = (index : Int) + 1 := rfl
  rw [hid]
  constructor
  · rw [h.live_iff, show ((index : Int) + 1 - 1).toNat = index by omega, hmem]
    simp
  · intro other
    rw [live_set h (h.popReady hfree) hlt rfl]
    by_cases hother : other = (index : Int) + 1
    · simp [hother]
    · simp [hother]

private theorem WellFormed.live_release (h : s.WellFormed) (hlive : s.Live id) (other : Int) :
    (s.release (id - 1).toNat).Live other ↔ s.Live other ∧ other ≠ id := by
  obtain ⟨hlo, hbit⟩ := h.live_iff.mp hlive
  have hlt := (List.getElem?_eq_some_iff.mp hbit).1
  have hid : ((id - 1).toNat : Int) + 1 = id := by omega
  rw [live_set h (h.release hlive) hlt rfl, hid]
  by_cases hother : other = id
  · simp [hother]
  · simp [hother]

/-! ### What the calls do -/

theorem expandOnce_free (s : NodeStore) :
    s.expandOnce.freeNodeList =
      (s.maxId + (cellSize - 1)) :: s.expandOnce.freeNodeList.tail := by
  have hrange : List.range' s.maxId cellSize =
      List.range' s.maxId (cellSize - 1) ++ [s.maxId + (cellSize - 1)] :=
    List.range'_1_concat (n := cellSize - 1)
  simp only [NodeStore.expandOnce, hrange, List.reverse_append]
  rfl

private theorem WellFormed.live_expandOnce (h : s.WellFormed) (other : Int) :
    s.expandOnce.Live other ↔ s.Live other := by
  rw [h.expandOnce.live_iff, h.live_iff]
  refine and_congr_right (fun _ => ?_)
  simp only [NodeStore.expandOnce]
  by_cases hlt : (other - 1).toNat < s.usedNodeSet.length
  · rw [List.getElem?_append_left hlt]
  · rw [List.getElem?_append_right (by omega), List.getElem?_replicate,
      List.getElem?_eq_none (by omega : s.usedNodeSet.length ≤ (other - 1).toNat)]
    split <;> simp

theorem WellFormed.getReadyNode (h : s.WellFormed) {t : NodeStore}
    (hget : s.getReadyNode = .ok (id, t)) :
    t.WellFormed ∧ ¬ s.Live id ∧ ∀ other, t.Live other ↔ other = id ∨ s.Live other := by
  unfold NodeStore.getReadyNode at hget
  split at hget
  · rename_i index rest hfree
    have hpair := Except.ok.inj hget
    have hlive := h.live_popReady hfree
    have hwell := h.popReady hfree
    rw [hpair] at hlive hwell
    exact ⟨hwell, hlive⟩
  · split at hget
    · cases hget
    · have hpair := Except.ok.inj hget
      have hlive := h.expandOnce.live_popReady (expandOnce_free s)
      have hwell := h.expandOnce.popReady (expandOnce_free s)
      rw [hpair] at hlive hwell
      simp only [h.live_expandOnce] at hlive
      exact ⟨hwell, hlive⟩

theorem Live.indexInUsedVec (h : s.Live id) : s.indexInUsedVec (id - 1) = true := h

theorem Live.ne_rootNode (h : s.Live id) : id ≠ rootNode := by
  rintro rfl
  simp [Live, NodeStore.indexInUsedVec, rootNode] at h

theorem getUsedNode_isOk : (∃ n, s.getUsedNode id = .ok n) ↔ s.Live id := by
  unfold getUsedNode
  constructor
  · rintro ⟨n, hn⟩
    split at hn
    · cases hn
    · split at hn
      · assumption
      · cases hn
  · intro h
    rw [if_neg h.ne_rootNode, if_pos h.indexInUsedVec]
    exact ⟨_, rfl⟩

theorem returnNode_of_live {next : Int} {force : Bool} (h : s.Live id)
    (hfree : ¬ ((s.node (id - 1).toNat).referenceCount ≠ 0 ∧ force = false)) :
    s.returnNode id next force =
      (true, (s.node (id - 1).toNat).next, s.release (id - 1).toNat) := by
  rw [returnNode, if_pos h.indexInUsedVec, if_neg hfree]

theorem returnNode_of_referred {next : Int} (h : s.Live id)
    (href : (s.node (id - 1).toNat).referenceCount ≠ 0) :
    s.returnNode id next false = (false, next, s) := by
  rw [returnNode, if_pos h.indexInUsedVec, if_pos ⟨href, rfl⟩]

theorem returnNode_of_dead {next : Int} {force : Bool} (h : ¬ s.Live id) :
    s.returnNode id next force = (true, next, s) := by
  have hindex : ¬ s.indexInUsedVec (id - 1) = true := h
  rw [returnNode, if_neg hindex]

theorem returnNodeRetrying_of_live (h : s.Live id) :
    s.returnNodeRetrying id = ((s.node (id - 1).toNat).next, s.release (id - 1).toNat) := by
  have hloop : ∀ tries, s.returnNodeLoop id tries =
      ((s.node (id - 1).toNat).next, s.release (id - 1).toNat) := by
    intro tries
    induction tries with
    | zero => rw [returnNodeLoop, returnNode_of_live h (by simp)]
    | succ tries ih =>
      by_cases href : (s.node (id - 1).toNat).referenceCount ≠ 0
      · rw [returnNodeLoop, returnNode_of_referred h href]
        exact ih
      · rw [returnNodeLoop, returnNode_of_live h (fun hc => href hc.1)]
        rfl
  exact hloop 1000

private theorem returnNodeRetrying_of_dead (h : ¬ s.Live id) :
    s.returnNodeRetrying id = (invalidNode, s) := by
  rw [returnNodeRetrying, returnNodeLoop, returnNode_of_dead h]
  rfl

theorem WellFormed.returnNodeRetrying (h : s.WellFormed) (id : Int) :
    (s.returnNodeRetrying id).2.WellFormed ∧
      ∀ other, (s.returnNodeRetrying id).2.Live other ↔ s.Live other ∧ other ≠ id := by
  by_cases hlive : s.Live id
  · rw [returnNodeRetrying_of_live hlive]
    exact ⟨h.release hlive, h.live_release hlive⟩
  · rw [returnNodeRetrying_of_dead hlive]
    refine ⟨h, fun other => ⟨fun ho => ⟨ho, ?_⟩, fun ho => ho.1⟩⟩
    rintro rfl
    exact hlive ho

theorem maxId_returnNodeRetrying (s : NodeStore) (id : Int) :
    (s.returnNodeRetrying id).2.maxId = s.maxId := by
  by_cases hlive : s.Live id
  · rw [returnNodeRetrying_of_live hlive]
    rfl
  · rw [returnNodeRetrying_of_dead hlive]

theorem WellFormed.freeLoop (h : s.WellFormed) (next : Int) {fuel : Nat}
    (hfuel : s.liveNodesCount < fuel) : ∃ t, s.freeLoop next fuel = some t ∧ t.WellFormed := by
  induction fuel generalizing s next with
  | zero => omega
  | succ fuel ih =>
    rw [NodeStore.freeLoop]
    by_cases hnext : next = invalidNode
    · exact ⟨s, if_pos hnext, h⟩
    · rw [if_neg hnext]
      by_cases hlive : s.Live next
      · rw [returnNodeRetrying_of_live hlive]
        refine ih (h.release hlive) _ ?_
        have hbefore := h.exact.count
        have hafter := (h.release hlive).exact.count
        simp only [slots, NodeStore.release, List.length_set, List.length_cons] at hbefore hafter
        simp only [liveNodesCount, NodeStore.release] at hfuel ⊢
        omega
      · rw [returnNodeRetrying_of_dead hlive]
        refine ⟨s, ?_, h⟩
        cases fuel <;> simp [NodeStore.freeLoop]

theorem WellFormed.freeNodeTree (h : s.WellFormed) (root : Int) :
    ∃ t, s.freeNodeTree root = some t ∧ t.WellFormed := by
  rw [NodeStore.freeNodeTree]
  split
  · exact ⟨s, rfl, h⟩
  · have hreturned := (h.returnNodeRetrying root).1
    refine hreturned.freeLoop _ ?_
    -- every index is free or in use, and `maxId` of them there are
    have hcount := hreturned.exact.count
    have hentries := hreturned.entries
    have hmax := maxId_returnNodeRetrying s root
    simp only [slots] at hcount
    simp only [liveNodesCount]
    omega

/-! ### Runs -/

/-- The calls made on a pool. `write` is what the holder of a node writes into it meanwhile:
its links and reference count are members of the node. -/
inductive PoolCall where
  | getNode
  | referNode (id : Int)
  | returnNode (id : Int)
  | freeNodeTree (id : Int)
  | write (index : Nat) (f : TraceNode → TraceNode)

/-- The pool after a call; a call that throws leaves it as it was. -/
def call (s : NodeStore) : PoolCall → Option NodeStore
  | .getNode =>
    match s.getReadyNode with
    | .ok (_, t) => some t
    | .error _ => some s
  | .referNode id =>
    match s.getUsedNode id with
    | .ok n => some (s.setNode (id - 1).toNat { n with referenceCount := n.referenceCount + 1 })
    | .error _ => some s
  | .returnNode id => some (s.returnNodeRetrying id).2
  | .freeNodeTree id => s.freeNodeTree id
  | .write index f => some (s.setNode index (f (s.node index)))

theorem WellFormed.call (h : s.WellFormed) (c : PoolCall) :
    ∃ t, s.call c = some t ∧ t.WellFormed := by
  cases c with
  | getNode =>
    simp only [NodeStore.call]
    split
    · rename_i hget
      exact ⟨_, rfl, (h.getReadyNode hget).1⟩
    · exact ⟨s, rfl, h⟩
  | referNode id =>
    simp only [NodeStore.call]
    split
    · exact ⟨_, rfl, h.setNode _ _⟩
    · exact ⟨s, rfl, h⟩
  | returnNode id => exact ⟨_, rfl, (h.returnNodeRetrying id).1⟩
  | freeNodeTree id => exact h.freeNodeTree id
  | write index f => exact ⟨_, rfl, h.setNode _ _⟩

theorem WellFormed.exec (h : s.WellFormed) (calls : List PoolCall) :
    ∃ t, Framework.exec NodeStore.call s calls = some t ∧ t.WellFormed := by
  induction calls generalizing s with
  | nil => exact ⟨s, rfl, h⟩
  | cons c calls ih =>
    obtain ⟨t, hcall, ht⟩ := h.call c
    obtain ⟨u, hrest, hu⟩ := ih ht
    exact ⟨u, by rw [Framework.exec, hcall, Option.bind_some, hrest], hu⟩

structure Representation (s : NodeStore) : Prop where
  entries : s.usedNodeSet.length = s.maxId
  cells : s.maxId = 128 * s.nodeIndexVec.length
  nodup : s.freeNodeList.Nodup
  mem_free : ∀ i, i ∈ s.freeNodeList ↔ i < s.maxId ∧ s.usedNodeSet[i]? = some false
  /-- `GetNode` never returns an identifier that is live, and makes it live. -/
  getNode : ∀ id t, s.getReadyNode = .ok (id, t) →
    ¬ s.Live id ∧ ∀ other, t.Live other ↔ other = id ∨ s.Live other
  referNode : ∀ id, (∃ n, s.getUsedNode id = .ok n) ↔ s.Live id
  /-- `ReturnNode` makes its identifier dead and no other. -/
  returnNode : ∀ id other, (s.returnNodeRetrying id).2.Live other ↔ s.Live other ∧ other ≠ id
  dead : ∀ id, ¬ s.Live id → (s.returnNodeRetrying id).2 = s ∧ s.freeNodeTree id = some s
  count : s.freeNodesCount + s.liveNodesCount = s.totalNodesCount

private theorem freeNodeTree_of_dead (h : ¬ s.Live id) : s.freeNodeTree id = some s := by
  rw [NodeStore.freeNodeTree, returnNodeRetrying_of_dead h]
  split
  · rfl
  · rw [NodeStore.freeLoop, if_pos rfl]

private theorem WellFormed.representation (h : s.WellFormed) : s.Representation where
  entries := h.entries
  cells := h.cells
  nodup := h.exact.nodup
  mem_free i := by
    rw [← h.entries]
    exact ⟨fun hfree => ⟨h.exact.lt hfree, (h.exact.mem_free i).mp hfree⟩,
      fun hfree => (h.exact.mem_free i).mpr hfree.2⟩
  getNode id t hget := (h.getReadyNode hget).2
  referNode id := getUsedNode_isOk
  returnNode id := (h.returnNodeRetrying id).2
  dead id hdead := ⟨by rw [returnNodeRetrying_of_dead hdead], freeNodeTree_of_dead hdead⟩
  count := by
    have hcount := h.exact.count
    have hentries := h.entries
    have hcells := h.cells
    simp only [slots] at hcount
    rw [Nat.mul_comm] at hcells
    simp only [freeNodesCount, liveNodesCount, totalNodesCount]
    omega

/-- In every state reachable from a new pool, the three parts of its representation are in step
and the calls treat live and dead identifiers as they should. Every sequence of calls reaches a
state: no `FreeNodeTree` runs for ever. -/
theorem pool_representation (calls : List PoolCall) :
    ∃ s, exec call new calls = some s ∧ s.Representation := by
  obtain ⟨s, hrun, h⟩ := wellFormed_new.exec calls
  exact ⟨s, hrun, h.representation⟩

end NodeStore

end PinpointAgent.NodePool
