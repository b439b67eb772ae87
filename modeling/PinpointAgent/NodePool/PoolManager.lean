import Mathlib.Data.List.Nodup
import PinpointAgent.NodePool.TraceNode
/-!
# The node pool

`PoolManager` hands out trace nodes from cells of 128 and takes them back. A node's
identifier is its index plus one; `usedNodeSet_` marks the indices in use, `_freeNodeList`
is the stack of the others. `nodeIndexVec` and `usedNodeSet_` are functions of the index
here. `returnNode` reports an identifier that is not alive on the trace log and carries on,
so the log is part of the model (`notAliveLog`).
-/

namespace PinpointAgent.NodePool

abbrev cellSize : Nat := 128

/-- `POOL_MAX_NODES_LIMIT`, a hundred cells. -/
abbrev poolMaxNodesLimit : Int := 12800

structure PoolManager where
  usedNodeSet : Int → Bool
  maxId : Int
  /-- The stack of free indices, its top first. -/
  freeNodeList : List Int
  /-- The node of each index. -/
  nodeIndexVec : Int → TraceNode
  notAliveLog : List Int

namespace PoolManager

def indexInUsedVec (p : PoolManager) (index : Int) : Bool :=
  decide (0 ≤ index) && decide (index < p.maxId) && p.usedNodeSet index

def Live (p : PoolManager) (id : Int) : Prop := p.indexInUsedVec (id - 1) = true

instance decidableLive (p : PoolManager) (id : Int) : Decidable (p.Live id) :=
  inferInstanceAs (Decidable (_ = true))

def nodeAt (p : PoolManager) (id : Int) : TraceNode := p.nodeIndexVec (id - 1)

def modifyNode (p : PoolManager) (id : Int) (f : TraceNode → TraceNode) : PoolManager :=
  { p with nodeIndexVec := Function.update p.nodeIndexVec (id - 1) (f (p.nodeAt id)) }

def expandOnce (p : PoolManager) : PoolManager :=
  { p with
    nodeIndexVec := fun i =>
      if p.maxId ≤ i ∧ i < p.maxId + cellSize then {} else p.nodeIndexVec i
    usedNodeSet := fun i =>
      if p.maxId ≤ i ∧ i < p.maxId + cellSize then false else p.usedNodeSet i
    -- the indices are pushed in increasing order
    freeNodeList := ((List.range cellSize).map fun k : Nat => p.maxId + k).reverse ++ p.freeNodeList
    maxId := p.maxId + cellSize }

def new : PoolManager :=
  expandOnce ⟨fun _ => false, rootNode, [], fun _ => {}, []⟩

/-- The end of `getReadyNode`: the index on top of the stack is popped and its node reset. -/
def popReady (p : PoolManager) (index : Int) (rest : List Int) : Int × PoolManager :=
  (index + 1,
    { p with
      freeNodeList := rest
      usedNodeSet := Function.update p.usedNodeSet index true
      nodeIndexVec := Function.update p.nodeIndexVec index
        ((p.nodeIndexVec index).reset (index + 1)) })

def getReadyNode (p : PoolManager) : Except AgentError (Int × PoolManager) :=
  match p.freeNodeList with
  | index :: rest => .ok (p.popReady index rest)
  | [] =>
    if poolMaxNodesLimit < p.maxId then .error .poolLimit
    else
      -- the stack of the new cell, whose top is its last index
      .ok (p.expandOnce.popReady (p.maxId + (cellSize - 1 : Nat)) p.expandOnce.freeNodeList.tail)

/-- No node is left to hand out: none is free and the pool has grown past its limit. -/
def Exhausted (p : PoolManager) : Prop := p.freeNodeList = [] ∧ poolMaxNodesLimit < p.maxId

instance decidableExhausted (p : PoolManager) : Decidable p.Exhausted :=
  inferInstanceAs (Decidable (_ ∧ _))

def getUsedNode (p : PoolManager) (id : Int) : Except AgentError TraceNode :=
  if id = rootNode then .error .idZero
  else if p.indexInUsedVec (id - 1) then .ok (p.nodeAt id)
  else .error (.notAlive id)

def release (p : PoolManager) (id : Int) : PoolManager :=
  { p with
    usedNodeSet := Function.update p.usedNodeSet (id - 1) false
    freeNodeList := (id - 1) :: p.freeNodeList }

/-- `returnNode`: whether the attempt is over, the `next` it reports, and the pool. -/
def returnNode (p : PoolManager) (id next : Int) (force : Bool) : Bool × Int × PoolManager :=
  if p.indexInUsedVec (id - 1) then
    if (p.nodeAt id).referenceCount ≠ 0 ∧ force = false then (false, next, p)
    else (true, (p.nodeAt id).next, p.release id)
  else (true, next, { p with notAliveLog := p.notAliveLog ++ [id] })

/-- The attempts of `ReturnNode` that are left, with the forced one at their end. -/
def returnNodeLoop (p : PoolManager) (id : Int) : Nat → Int × PoolManager
  | 0 => (p.returnNode id invalidNode true).2
  | tries + 1 =>
    let attempt := p.returnNode id invalidNode false
    if attempt.1 then attempt.2 else attempt.2.2.returnNodeLoop id tries

/-- `ReturnNode`: a thousand attempts, then by force. -/
def returnNodeRetrying (p : PoolManager) (id : Int) : Int × PoolManager :=
  p.returnNodeLoop id 1000

/-- The loop of `FreeNodeTree`; `none` when `fuel` rounds do not reach `E_INVALID_NODE`. -/
def freeLoop (p : PoolManager) (next : Int) : Nat → Option PoolManager
  | 0 => if next = invalidNode then some p else none
  | fuel + 1 =>
    if next = invalidNode then some p
    else
      let returned := p.returnNodeRetrying next
      returned.2.freeLoop returned.1 fuel

/-- `FreeNodeTree`; each round of its loop returns one node, so a round for every node and
one more is all the loop can take. -/
def freeNodeTree (p : PoolManager) (root : Int) : Option PoolManager :=
  if root = invalidNode ∨ root = rootNode then some p
  else
    let returned := p.returnNodeRetrying root
    returned.2.freeLoop returned.1 (p.maxId.toNat + 1)

def rootExtra (p : PoolManager) (root : Int) : RootTraceNodeExtra :=
  ((p.nodeAt root).rootNodeExtra).getD {}

/-- The end of `AppendToRootTrace`: the new node becomes the last one, takes the next
sequence number and, as the first child, hangs on the root. -/
def closeAppend (p : PoolManager) (root new : Int) : PoolManager :=
  let newId := (p.nodeAt new).id
  let sequence := (p.rootExtra root).sequence
  let numbered := p.modifyNode new fun n => { n with sequence := sequence }
  numbered.modifyNode root fun r =>
    { r with
      rootNodeExtra := some { p.rootExtra root with last := newId, sequence := sequence + 1 }
      next := if r.next = invalidNode then newId else r.next }

/-- `AppendToRootTrace`, with the exception of `ReferNode(last)`. -/
def appendToRootTrace (p : PoolManager) (root new : Int) :
    Except AgentError Unit × PoolManager :=
  if (p.nodeAt new).rootId ≠ invalidNode then (.ok (), p)
  else
    let owned := p.modifyNode new fun n => { n with rootId := (p.nodeAt root).id }
    let last := (owned.rootExtra root).last
    if last = invalidNode then
      let timed := owned.modifyNode new fun n =>
        { n with preTraceTime := (owned.nodeAt root).traceStartTime }
      (.ok (), timed.closeAppend root new)
    else
      match owned.getUsedNode last with
      | .error e => (.error e, owned)
      | .ok lastNode =>
        let linked := owned.modifyNode last fun n => { n with next := (owned.nodeAt new).id }
        let timed := linked.modifyNode new fun n =>
          { n with preTraceTime := lastNode.traceStartTime }
        (.ok (), timed.closeAppend root new)

section Specs

variable {p : PoolManager} {id other : Int}

private theorem Live.indexInUsedVec (h : p.Live id) : p.indexInUsedVec (id - 1) = true := h

theorem live_iff : p.Live id ↔ 0 ≤ id - 1 ∧ id - 1 < p.maxId ∧ p.usedNodeSet (id - 1) = true := by
  simp only [Live, PoolManager.indexInUsedVec, Bool.and_eq_true, decide_eq_true_eq, and_assoc]

theorem Live.pos (h : p.Live id) : 1 ≤ id := by
  have := (live_iff.1 h).1
  omega

theorem Live.ne_invalidNode (h : p.Live id) : id ≠ invalidNode := by
  have := h.pos
  simp only [invalidNode]
  omega

theorem Live.ne_rootNode (h : p.Live id) : id ≠ rootNode := by
  have := h.pos
  simp only [rootNode]
  omega

theorem getUsedNode_of_live (h : p.Live id) : p.getUsedNode id = .ok (p.nodeAt id) := by
  rw [getUsedNode, if_neg h.ne_rootNode, if_pos h.indexInUsedVec]

theorem getUsedNode_eq_ok {n : TraceNode} (h : p.getUsedNode id = .ok n) :
    p.Live id ∧ n = p.nodeAt id := by
  unfold getUsedNode at h
  split at h
  · cases h
  · split at h
    · next hlive =>
      injection h with hn
      exact ⟨hlive, hn.symm⟩
    · cases h

@[simp] theorem nodeAt_modifyNode_self (f : TraceNode → TraceNode) :
    (p.modifyNode id f).nodeAt id = f (p.nodeAt id) := by
  simp [modifyNode, nodeAt]

@[simp] theorem nodeAt_modifyNode_of_ne (f : TraceNode → TraceNode) (h : other ≠ id) :
    (p.modifyNode id f).nodeAt other = p.nodeAt other := by
  have hindex : other - 1 ≠ id - 1 := by omega
  simp [modifyNode, nodeAt, Function.update_of_ne hindex]

@[simp] theorem live_modifyNode (f : TraceNode → TraceNode) :
    (p.modifyNode id f).Live other ↔ p.Live other := Iff.rfl

theorem live_release : (p.release id).Live other ↔ p.Live other ∧ other ≠ id := by
  by_cases heq : other = id
  · rw [heq]
    simp [live_iff, release]
  · have hindex : other - 1 ≠ id - 1 := by omega
    simp only [live_iff, release, Function.update_of_ne hindex, heq, ne_eq, not_false_eq_true,
      and_true]

theorem returnNode_of_live {next : Int} {force : Bool} (h : p.Live id)
    (href : (p.nodeAt id).referenceCount = 0) :
    p.returnNode id next force = (true, (p.nodeAt id).next, p.release id) := by
  rw [returnNode, if_pos h.indexInUsedVec, if_neg (fun hc => hc.1 href)]

theorem returnNodeRetrying_of_live (h : p.Live id) (href : (p.nodeAt id).referenceCount = 0) :
    p.returnNodeRetrying id = ((p.nodeAt id).next, p.release id) := by
  rw [returnNodeRetrying, returnNodeLoop, returnNode_of_live h href]
  rfl

/-- The pools that `AppendToRootTrace` can leave: only the nodes differ. -/
structure SameAllocation (p q : PoolManager) : Prop where
  used : q.usedNodeSet = p.usedNodeSet
  maxId : q.maxId = p.maxId
  free : q.freeNodeList = p.freeNodeList
  log : q.notAliveLog = p.notAliveLog

/-- The node before the next child of `root` in the order of starts. -/
def lastOrRoot (p : PoolManager) (root : Int) : Int :=
  if (p.rootExtra root).last = invalidNode then root else (p.rootExtra root).last

theorem SameAllocation.live {q : PoolManager} (h : SameAllocation p q) : q.Live id ↔ p.Live id := by
  rw [live_iff, live_iff, h.used, h.maxId]

theorem sameAllocation_modifyNode (f : TraceNode → TraceNode) :
    SameAllocation p (p.modifyNode id f) := ⟨rfl, rfl, rfl, rfl⟩

private theorem SameAllocation.trans {q r : PoolManager} (h : SameAllocation p q)
    (h' : SameAllocation q r) : SameAllocation p r :=
  ⟨h'.used.trans h.used, h'.maxId.trans h.maxId, h'.free.trans h.free, h'.log.trans h.log⟩

private theorem closeAppend_new {root new : Int} (hne : new ≠ root) :
    (p.closeAppend root new).nodeAt new =
      { p.nodeAt new with sequence := (p.rootExtra root).sequence } := by
  rw [closeAppend, nodeAt_modifyNode_of_ne _ hne, nodeAt_modifyNode_self]

private theorem closeAppend_root {root new : Int} (hne : new ≠ root) :
    (p.closeAppend root new).nodeAt root =
      { p.nodeAt root with
        rootNodeExtra := some { p.rootExtra root with
          last := (p.nodeAt new).id, sequence := (p.rootExtra root).sequence + 1 }
        next := if (p.nodeAt root).next = invalidNode then (p.nodeAt new).id
          else (p.nodeAt root).next } := by
  rw [closeAppend, nodeAt_modifyNode_self, nodeAt_modifyNode_of_ne _ hne.symm]

private theorem closeAppend_other {root new : Int} (hnew : other ≠ new) (hroot : other ≠ root) :
    (p.closeAppend root new).nodeAt other = p.nodeAt other := by
  rw [closeAppend, nodeAt_modifyNode_of_ne _ hroot, nodeAt_modifyNode_of_ne _ hnew]

private theorem sameAllocation_closeAppend (root new : Int) :
    SameAllocation p (p.closeAppend root new) := ⟨rfl, rfl, rfl, rfl⟩

private theorem appendToRootTrace_eq {root new : Int}
    (hfresh : (p.nodeAt new).rootId = invalidNode) (hroot : new ≠ root)
    (hlast : (p.rootExtra root).last ≠ invalidNode →
      p.Live (p.rootExtra root).last ∧ (p.rootExtra root).last ≠ root ∧
        (p.rootExtra root).last ≠ new) :
    ∃ q, p.appendToRootTrace root new = (.ok (), q.closeAppend root new) ∧ SameAllocation p q ∧
      q.nodeAt new = { p.nodeAt new with
        rootId := (p.nodeAt root).id
        preTraceTime := (p.nodeAt (p.lastOrRoot root)).traceStartTime } ∧
      q.nodeAt root = p.nodeAt root ∧
      ∀ other, p.Live other → other ≠ new → other ≠ root →
        q.nodeAt other = if other = (p.rootExtra root).last then
          { p.nodeAt other with next := (p.nodeAt new).id } else p.nodeAt other := by
  have hroot' : root ≠ new := hroot.symm
  have hextra (f : TraceNode → TraceNode) :
      (p.modifyNode new f).rootExtra root = p.rootExtra root := by
    rw [rootExtra, nodeAt_modifyNode_of_ne _ hroot', rootExtra]
  by_cases hnone : (p.rootExtra root).last = invalidNode
  · refine ⟨(p.modifyNode new fun n => { n with rootId := (p.nodeAt root).id }).modifyNode new fun n =>
      { n with preTraceTime := (p.nodeAt root).traceStartTime }, ?_, ⟨rfl, rfl, rfl, rfl⟩, ?_, ?_, ?_⟩
    · simp only [appendToRootTrace, hfresh, ne_eq, not_true_eq_false, if_false, hextra, hnone,
        if_true, nodeAt_modifyNode_of_ne _ hroot']
    · simp only [nodeAt_modifyNode_self, lastOrRoot, hnone, if_true]
    · simp only [nodeAt_modifyNode_of_ne _ hroot']
    · intro other hlive hnew hother
      have hne : other ≠ (p.rootExtra root).last := by
        rw [hnone]
        exact hlive.ne_invalidNode
      rw [if_neg hne, nodeAt_modifyNode_of_ne _ hnew, nodeAt_modifyNode_of_ne _ hnew]
  · obtain ⟨hlive, hneRoot, hneNew⟩ := hlast hnone
    refine ⟨((p.modifyNode new fun n => { n with rootId := (p.nodeAt root).id }).modifyNode
      (p.rootExtra root).last fun n => { n with next := (p.nodeAt new).id }).modifyNode new fun n =>
        { n with preTraceTime := (p.nodeAt (p.rootExtra root).last).traceStartTime }, ?_,
      ⟨rfl, rfl, rfl, rfl⟩, ?_, ?_, ?_⟩
    · have hused (f : TraceNode → TraceNode) : (p.modifyNode new f).getUsedNode
          (p.rootExtra root).last = .ok (p.nodeAt (p.rootExtra root).last) := by
        rw [getUsedNode_of_live ((live_modifyNode f).2 hlive), nodeAt_modifyNode_of_ne _ hneNew]
      simp only [appendToRootTrace, hfresh, ne_eq, not_true_eq_false, if_false, hextra, hnone,
        hused, nodeAt_modifyNode_self]
    · simp only [nodeAt_modifyNode_self, nodeAt_modifyNode_of_ne _ hneNew.symm, lastOrRoot, hnone,
        if_false]
    · simp only [nodeAt_modifyNode_of_ne _ hroot', nodeAt_modifyNode_of_ne _ hneRoot.symm]
    · intro other _ hnew hother
      rw [nodeAt_modifyNode_of_ne _ hnew]
      by_cases heq : other = (p.rootExtra root).last
      · rw [if_pos heq, heq, nodeAt_modifyNode_self, nodeAt_modifyNode_of_ne _ hneNew]
      · rw [if_neg heq, nodeAt_modifyNode_of_ne _ heq, nodeAt_modifyNode_of_ne _ hnew]

/-- What `AppendToRootTrace` does to a fresh node `new`, the root and the root's last node. -/
theorem appendToRootTrace_spec {root new : Int} (hfresh : (p.nodeAt new).rootId = invalidNode)
    (hroot : new ≠ root) (hlast : (p.rootExtra root).last ≠ invalidNode →
      p.Live (p.rootExtra root).last ∧ (p.rootExtra root).last ≠ root ∧
        (p.rootExtra root).last ≠ new) :
    ∃ q, p.appendToRootTrace root new = (.ok (), q) ∧ SameAllocation p q ∧
      q.nodeAt new = { p.nodeAt new with
        rootId := (p.nodeAt root).id
        preTraceTime := (p.nodeAt (p.lastOrRoot root)).traceStartTime
        sequence := (p.rootExtra root).sequence } ∧
      q.nodeAt root = { p.nodeAt root with
        rootNodeExtra := some { p.rootExtra root with
          last := (p.nodeAt new).id, sequence := (p.rootExtra root).sequence + 1 }
        next := if (p.nodeAt root).next = invalidNode then (p.nodeAt new).id
          else (p.nodeAt root).next } ∧
      ∀ other, p.Live other → other ≠ new → other ≠ root →
        q.nodeAt other = if other = (p.rootExtra root).last then
          { p.nodeAt other with next := (p.nodeAt new).id } else p.nodeAt other := by
  obtain ⟨q, heq, halloc, hnew, hq, hother⟩ := appendToRootTrace_eq hfresh hroot hlast
  have hextra : q.rootExtra root = p.rootExtra root := by rw [rootExtra, hq, rootExtra]
  refine ⟨q.closeAppend root new, heq, halloc.trans (sameAllocation_closeAppend root new), ?_, ?_, ?_⟩
  · rw [closeAppend_new hroot, hnew, hextra]
  · rw [closeAppend_root hroot, hq, hextra, hnew]
  · intro other hlive hne hne'
    rw [closeAppend_other hne hne', hother other hlive hne hne']

/-- The stack of free indices holds each index that is not in use, once. -/
structure AllocOk (p : PoolManager) : Prop where
  nonneg : 0 ≤ p.maxId
  nodup : p.freeNodeList.Nodup
  mem_free : ∀ i, i ∈ p.freeNodeList ↔ 0 ≤ i ∧ i < p.maxId ∧ p.usedNodeSet i = false

theorem SameAllocation.allocOk {q : PoolManager} (h : SameAllocation p q) (hp : AllocOk p) :
    AllocOk q := by
  refine ⟨?_, ?_, ?_⟩
  · rw [h.maxId]
    exact hp.nonneg
  · rw [h.free]
    exact hp.nodup
  · intro i
    rw [h.free, h.maxId, h.used]
    exact hp.mem_free i

private theorem mem_cell (m i : Int) :
    i ∈ ((List.range cellSize).map fun k : Nat => m + k).reverse ↔ m ≤ i ∧ i < m + cellSize := by
  simp only [List.mem_reverse, List.mem_map, List.mem_range]
  constructor
  · rintro ⟨k, hk, rfl⟩
    omega
  · intro h
    exact ⟨(i - m).toNat, by omega, by omega⟩

private theorem AllocOk.expandOnce (h : AllocOk p) : AllocOk p.expandOnce := by
  have hnonneg := h.nonneg
  refine ⟨?_, ?_, ?_⟩
  · simp only [PoolManager.expandOnce]
    omega
  · refine List.Nodup.append ?_ h.nodup ?_
    · refine List.nodup_reverse.2 (List.Nodup.map ?_ List.nodup_range)
      intro a b hab
      simp only at hab
      omega
    · intro i hcell hfree
      have := (mem_cell _ _).1 hcell
      have := (h.mem_free i).1 hfree
      omega
  · intro i
    simp only [PoolManager.expandOnce, List.mem_append, mem_cell, h.mem_free]
    split
    · next hcell =>
      simp only [and_true]
      omega
    · next hcell =>
      constructor
      · rintro (hin | ⟨hlo, hhi, hused⟩)
        · exact absurd hin hcell
        · exact ⟨hlo, by omega, hused⟩
      · rintro ⟨hlo, hhi, hused⟩
        exact .inr ⟨hlo, by omega, hused⟩

theorem allocOk_new : AllocOk new := by
  apply AllocOk.expandOnce
  refine ⟨le_refl _, List.nodup_nil, ?_⟩
  intro i
  simp only [List.not_mem_nil, rootNode, false_iff]
  omega

/-- What `GetNode` gives: an identifier that was not alive, a node that was reset, and
every live node as it was. -/
structure Allocated (p : PoolManager) (id : Int) (q : PoolManager) : Prop where
  dead : ¬p.Live id
  alloc : AllocOk q
  live_iff : ∀ other, q.Live other ↔ other = id ∨ p.Live other
  node : ∃ n : TraceNode, q.nodeAt id = n.reset id
  kept : ∀ other, p.Live other → q.nodeAt other = p.nodeAt other
  log : q.notAliveLog = p.notAliveLog
  maxId : p.maxId ≤ q.maxId ∧ q.maxId ≤ max p.maxId (poolMaxNodesLimit + cellSize)

private theorem popReady_spec {index : Int} {rest : List Int} (h : AllocOk p)
    (hfree : p.freeNodeList = index :: rest) :
    Allocated p (p.popReady index rest).1 (p.popReady index rest).2 := by
  have hmem := h.mem_free
  have hnodup := h.nodup
  rw [hfree] at hmem hnodup
  obtain ⟨hlo, hhi, hunused⟩ := (hmem index).1 (List.mem_cons_self ..)
  have hlive (other : Int) : (p.popReady index rest).2.Live other ↔ other = index + 1 ∨ p.Live other := by
    simp only [PoolManager.live_iff, popReady]
    by_cases heq : other - 1 = index
    · rw [heq, Function.update_self]
      constructor
      · intro _
        exact .inl (by omega)
      · intro _
        exact ⟨hlo, hhi, rfl⟩
    · rw [Function.update_of_ne heq]
      constructor
      · exact .inr
      · rintro (hother | hother)
        · exact absurd (by omega) heq
        · exact hother
  have hdead : ¬p.Live (index + 1) := by
    rw [PoolManager.live_iff, show index + 1 - 1 = index by omega, hunused]
    simp
  refine ⟨hdead, ⟨h.nonneg, (List.nodup_cons.1 hnodup).2, ?_⟩, hlive, ?_, ?_, rfl, Int.le_refl _, Int.le_max_left _ _⟩
  · intro i
    simp only [popReady]
    by_cases heq : i = index
    · rw [heq, Function.update_self]
      simp [(List.nodup_cons.1 hnodup).1]
    · rw [Function.update_of_ne heq, ← hmem i, List.mem_cons]
      simp [heq]
  · refine ⟨p.nodeIndexVec index, ?_⟩
    simp [popReady, nodeAt]
  · intro other hother
    have hne : other - 1 ≠ index := by
      intro heq
      exact hdead (by rwa [← heq, show other - 1 + 1 = other by omega])
    simp only [popReady, nodeAt, Function.update_of_ne hne]

private theorem expandOnce_live (h : AllocOk p) : p.expandOnce.Live other ↔ p.Live other := by
  have hnonneg := h.nonneg
  simp only [PoolManager.live_iff, PoolManager.expandOnce]
  split
  · next hcell =>
    simp only [Bool.false_eq_true, and_false, false_iff]
    omega
  · next hcell =>
    constructor
    · rintro ⟨hlo, hhi, hused⟩
      exact ⟨hlo, by omega, hused⟩
    · rintro ⟨hlo, hhi, hused⟩
      exact ⟨hlo, by omega, hused⟩

private theorem expandOnce_nodeAt (hlive : p.Live other) : p.expandOnce.nodeAt other = p.nodeAt other := by
  have := PoolManager.live_iff.1 hlive
  simp only [nodeAt, PoolManager.expandOnce]
  rw [if_neg (by omega)]

private theorem expandOnce_free (p : PoolManager) :
    p.expandOnce.freeNodeList = (p.maxId + (cellSize - 1 : Nat)) :: p.expandOnce.freeNodeList.tail := by
  have hrange : List.range cellSize = List.range (cellSize - 1) ++ [cellSize - 1] :=
    List.range_succ (n := cellSize - 1)
  simp only [PoolManager.expandOnce, hrange, List.map_append, List.reverse_append]
  rfl

theorem getReadyNode_spec {q : PoolManager} (h : AllocOk p)
    (hget : p.getReadyNode = .ok (id, q)) : Allocated p id q := by
  unfold getReadyNode at hget
  split at hget
  · next index rest hfree =>
    injection hget with hpair
    have := popReady_spec h hfree
    rwa [hpair] at this
  · split at hget
    · cases hget
    · next hlimit =>
      injection hget with hpair
      have hpop := popReady_spec h.expandOnce (expandOnce_free p)
      rw [hpair] at hpop
      refine ⟨?_, hpop.alloc, ?_, hpop.node, ?_, hpop.log, ?_⟩
      · rw [← expandOnce_live h]
        exact hpop.dead
      · intro other
        rw [hpop.live_iff, expandOnce_live h]
      · intro other hlive
        rw [hpop.kept other ((expandOnce_live h).2 hlive), expandOnce_nodeAt hlive]
      · have hmax := hpop.maxId
        simp only [expandOnce] at hmax
        omega

theorem getReadyNode_error {e : AgentError} (hget : p.getReadyNode = .error e) :
    e = .poolLimit ∧ p.Exhausted := by
  unfold getReadyNode at hget
  split at hget
  · cases hget
  · next hfree =>
    split at hget
    · next hlimit =>
      injection hget with he
      exact ⟨he.symm, hfree, hlimit⟩
    · cases hget

theorem not_exhausted_of_ready {r : Int × PoolManager} (hget : p.getReadyNode = .ok r) :
    ¬p.Exhausted := by
  rintro ⟨hfree, hlimit⟩
  simp [getReadyNode, hfree, hlimit] at hget

theorem AllocOk.release (h : AllocOk p) (hlive : p.Live id) : AllocOk (p.release id) := by
  obtain ⟨hlo, hhi, hused⟩ := PoolManager.live_iff.1 hlive
  refine ⟨h.nonneg, List.nodup_cons.2 ⟨?_, h.nodup⟩, ?_⟩
  · rw [h.mem_free, hused]
    simp
  · intro i
    simp only [PoolManager.release, List.mem_cons, h.mem_free]
    by_cases heq : i = id - 1
    · rw [heq, Function.update_self]
      simp only [true_or, hlo, hhi, and_self]
    · rw [Function.update_of_ne heq]
      simp [heq]

end Specs

end PoolManager

end PinpointAgent.NodePool
