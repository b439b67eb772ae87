import PinpointAgent.NodePool.NodeStore
/-!
# The pool of functions

The other modules work with a pool whose vectors are functions of the index. It is an abstraction of
the pool as it lies in memory: both answer every call alike, in every state that a sequence of
calls can reach.
-/

namespace PinpointAgent.NodePool

open Framework

/-- The calls of `NodeStore.call` on the pool of functions. -/
def PoolManager.call (p : PoolManager) : NodeStore.PoolCall → Option PoolManager
  | .getNode =>
    match p.getReadyNode with
    | .ok (_, q) => some q
    | .error _ => some p
  | .referNode id =>
    match p.getUsedNode id with
    | .ok _ => some (p.modifyNode id fun n => { n with referenceCount := n.referenceCount + 1 })
    | .error _ => some p
  | .returnNode id => some (p.returnNodeRetrying id).2
  | .freeNodeTree id => p.freeNodeTree id
  | .write index f => some (p.modifyNode (index + 1) f)

namespace NodeStore

variable {s : NodeStore} {p : PoolManager} {id : Int}

structure Represents (s : NodeStore) (p : PoolManager) : Prop where
  maxId : p.maxId = s.maxId
  free : p.freeNodeList = s.freeNodeList.map fun i : Nat => (i : Int)
  used : ∀ i < s.maxId, p.usedNodeSet i = s.usedNodeSet.getD i false
  nodes : ∀ i < s.maxId, p.nodeIndexVec i = s.node i

private theorem Represents.indexInUsedVec (h : s.Represents p) (index : Int) :
    p.indexInUsedVec index = s.indexInUsedVec index := by
  rw [PoolManager.indexInUsedVec, NodeStore.indexInUsedVec, h.maxId]
  by_cases hrange : 0 ≤ index ∧ index < s.maxId
  · obtain ⟨i, rfl⟩ := Int.eq_ofNat_of_zero_le hrange.1
    rw [h.used i (by omega)]
    rfl
  · have hout : (decide (0 ≤ index) && decide (index < (s.maxId : Int))) = false := by
      simpa using hrange
    rw [hout, Bool.false_and, Bool.false_and]

private theorem Represents.nodeAt (h : s.Represents p) (hlive : s.Live id) :
    p.nodeAt id = s.node (id - 1).toNat := by
  have hrange : 0 ≤ id - 1 ∧ id - 1 < s.maxId := by
    have := hlive.indexInUsedVec
    simp only [NodeStore.indexInUsedVec, Bool.and_eq_true, decide_eq_true_eq] at this
    exact this.1
  obtain ⟨i, hi⟩ := Int.eq_ofNat_of_zero_le hrange.1
  rw [PoolManager.nodeAt, hi, h.nodes i (by omega)]
  rfl

private theorem Represents.getUsedNode (h : s.Represents p) (id : Int) :
    p.getUsedNode id = s.getUsedNode id := by
  rw [PoolManager.getUsedNode, NodeStore.getUsedNode, h.indexInUsedVec]
  split
  · rfl
  · split
    · rename_i hlive
      rw [h.nodeAt hlive]
    · rfl

private theorem Represents.release (h : s.Represents p) (hwell : s.WellFormed) (hlive : s.Live id) :
    (s.release (id - 1).toNat).Represents (p.release id) := by
  obtain ⟨hlo, hbit⟩ := hwell.live_iff.mp hlive
  have hlt := (List.getElem?_eq_some_iff.mp hbit).1
  have hid : ((id - 1).toNat : Int) = id - 1 := by omega
  refine ⟨h.maxId, ?_, ?_, h.nodes⟩
  · simp only [PoolManager.release, NodeStore.release, List.map_cons, hid, h.free]
  · intro i hi
    simp only [PoolManager.release, NodeStore.release, List.getD_eq_getElem?_getD]
    by_cases heq : i = (id - 1).toNat
    · rw [heq, List.getElem?_set_self hlt, hid, Function.update_self]
      rfl
    · rw [List.getElem?_set_ne (Ne.symm heq), Function.update_of_ne (by omega), h.used i hi,
        List.getD_eq_getElem?_getD]

theorem Represents.log (h : s.Represents p) (log : List Int) :
    s.Represents { p with notAliveLog := log } := ⟨h.maxId, h.free, h.used, h.nodes⟩

private theorem Represents.returnNode (h : s.Represents p) (hwell : s.WellFormed) (id next : Int)
    (force : Bool) :
    (p.returnNode id next force).1 = (s.returnNode id next force).1 ∧
      (p.returnNode id next force).2.1 = (s.returnNode id next force).2.1 ∧
      (s.returnNode id next force).2.2.Represents (p.returnNode id next force).2.2 := by
  rw [PoolManager.returnNode, NodeStore.returnNode, h.indexInUsedVec]
  split
  · rename_i hlive
    rw [h.nodeAt hlive]
    split
    · exact ⟨rfl, rfl, h⟩
    · exact ⟨rfl, rfl, h.release hwell hlive⟩
  · exact ⟨rfl, rfl, h.log _⟩

private theorem Represents.returnNodeLoop (h : s.Represents p) (hwell : s.WellFormed) (id : Int)
    (tries : Nat) :
    (p.returnNodeLoop id tries).1 = (s.returnNodeLoop id tries).1 ∧
      (s.returnNodeLoop id tries).2.Represents (p.returnNodeLoop id tries).2 := by
  induction tries generalizing p with
  | zero => exact (h.returnNode hwell id invalidNode true).2
  | succ tries ih =>
    have hattempt := h.returnNode hwell id invalidNode false
    by_cases hlive : s.Live id ∧ (s.node (id - 1).toNat).referenceCount ≠ 0
    · -- refused: the store is as it was
      rw [returnNode_of_referred hlive.1 hlive.2] at hattempt
      rw [PoolManager.returnNodeLoop, NodeStore.returnNodeLoop,
        returnNode_of_referred hlive.1 hlive.2, hattempt.1]
      exact ih hattempt.2.2
    · have hover : (s.returnNode id invalidNode false).1 = true := by
        by_cases hl : s.Live id
        · rw [returnNode_of_live hl (fun hc => hlive ⟨hl, hc.1⟩)]
        · rw [returnNode_of_dead hl]
      rw [PoolManager.returnNodeLoop, NodeStore.returnNodeLoop, hattempt.1, hover]
      exact hattempt.2

private theorem Represents.returnNodeRetrying (h : s.Represents p) (hwell : s.WellFormed) (id : Int) :
    (p.returnNodeRetrying id).1 = (s.returnNodeRetrying id).1 ∧
      (s.returnNodeRetrying id).2.Represents (p.returnNodeRetrying id).2 :=
  h.returnNodeLoop hwell id 1000

private theorem Represents.freeLoop (h : s.Represents p) (hwell : s.WellFormed) {next : Int} {fuel : Nat}
    {t : NodeStore} (hfree : s.freeLoop next fuel = some t) :
    ∃ q, p.freeLoop next fuel = some q ∧ t.Represents q := by
  induction fuel generalizing s p next with
  | zero =>
    rw [NodeStore.freeLoop] at hfree
    split at hfree
    · cases hfree
      exact ⟨p, by rw [PoolManager.freeLoop, if_pos ‹_›], h⟩
    · cases hfree
  | succ fuel ih =>
    rw [NodeStore.freeLoop] at hfree
    split at hfree
    · cases hfree
      exact ⟨p, by rw [PoolManager.freeLoop, if_pos ‹_›], h⟩
    · obtain ⟨hnext, hreturned⟩ := h.returnNodeRetrying hwell next
      obtain ⟨q, hq, ht⟩ := ih hreturned (hwell.returnNodeRetrying next).1 hfree
      refine ⟨q, ?_, ht⟩
      rw [← hnext] at hq
      rw [PoolManager.freeLoop, if_neg ‹_›]
      exact hq

private theorem Represents.freeNodeTree (h : s.Represents p) (hwell : s.WellFormed) {root : Int}
    {t : NodeStore} (hfree : s.freeNodeTree root = some t) :
    ∃ q, p.freeNodeTree root = some q ∧ t.Represents q := by
  rw [NodeStore.freeNodeTree] at hfree
  split at hfree
  · cases hfree
    exact ⟨p, by rw [PoolManager.freeNodeTree, if_pos ‹_›], h⟩
  · obtain ⟨hnext, hreturned⟩ := h.returnNodeRetrying hwell root
    obtain ⟨q, hq, ht⟩ := hreturned.freeLoop (hwell.returnNodeRetrying root).1 hfree
    refine ⟨q, ?_, ht⟩
    have hfuel : p.maxId.toNat = s.maxId := by rw [h.maxId, Int.toNat_natCast]
    rw [← hnext, ← hfuel] at hq
    rw [PoolManager.freeNodeTree, if_neg ‹_›]
    exact hq

private theorem node_setNode (hwell : s.WellFormed) {i j : Nat} (hj : j < s.maxId) (n : TraceNode) :
    (s.setNode j n).node i = if i = j then n else s.node i := by
  have hcells := hwell.cells
  have hcell : j / cellSize < s.nodeIndexVec.length := by
    rw [Nat.div_lt_iff_lt_mul (by decide), Nat.mul_comm]
    omega
  have hfull := hwell.full _ (List.getElem_mem hcell)
  simp only [node, NodeStore.setNode, List.getD_eq_getElem?_getD, List.getElem?_modify]
  by_cases hdiv : i / cellSize = j / cellSize
  · rw [hdiv, List.getElem?_eq_getElem hcell]
    simp only [if_true, Option.map_eq_map, Option.map_some, Option.getD_some]
    by_cases hmod : i % cellSize = j % cellSize
    · have heq : i = j := by
        rw [← Nat.div_add_mod i cellSize, ← Nat.div_add_mod j cellSize, hdiv, hmod]
      rw [if_pos heq, hmod, List.getElem?_set_self (by rw [hfull]; exact Nat.mod_lt _ (by decide))]
      rfl
    · have hne : i ≠ j := fun heq => hmod (by rw [heq])
      rw [if_neg hne, List.getElem?_set_ne (Ne.symm hmod)]
  · have hne : i ≠ j := fun heq => hdiv (by rw [heq])
    simp only [if_neg hne, if_neg (Ne.symm hdiv), Option.map_eq_map, Option.map_id']

private theorem Represents.setNode (h : s.Represents p) (hwell : s.WellFormed) {index : Nat}
    (hindex : index < s.maxId) (n : TraceNode) :
    (s.setNode index n).Represents
      { p with nodeIndexVec := Function.update p.nodeIndexVec index n } := by
  refine ⟨h.maxId, h.free, h.used, fun i hi => ?_⟩
  rw [node_setNode hwell hindex]
  by_cases heq : i = index
  · rw [heq, if_pos rfl]
    exact Function.update_self ..
  · rw [if_neg heq]
    have hcast : (i : Int) ≠ index := by omega
    exact (Function.update_of_ne hcast ..).trans (h.nodes i hi)

private theorem Represents.expandOnce (h : s.Represents p) (hwell : s.WellFormed) :
    s.expandOnce.Represents p.expandOnce := by
  have hcells := hwell.cells
  refine ⟨?_, ?_, ?_, ?_⟩
  · simp only [PoolManager.expandOnce, NodeStore.expandOnce, h.maxId]
    omega
  · simp only [PoolManager.expandOnce, NodeStore.expandOnce, h.free, h.maxId, List.map_append,
      List.map_reverse, List.range'_eq_map_range, List.map_map]
    rfl
  · intro i hi
    simp only [PoolManager.expandOnce, NodeStore.expandOnce, h.maxId,
      List.getD_eq_getElem?_getD] at hi ⊢
    by_cases hold : i < s.maxId
    · rw [if_neg (by omega), h.used i hold, List.getElem?_append_left (by rw [hwell.entries]; exact hold),
        List.getD_eq_getElem?_getD]
    · rw [if_pos (by omega), List.getElem?_append_right (by rw [hwell.entries]; omega),
        List.getElem?_replicate]
      split <;> rfl
  · intro i hi
    simp only [PoolManager.expandOnce, NodeStore.expandOnce, h.maxId, node,
      List.getD_eq_getElem?_getD] at hi ⊢
    by_cases hold : i < s.maxId
    · have hcell : i / cellSize < s.nodeIndexVec.length := by
        rw [Nat.div_lt_iff_lt_mul (by decide), Nat.mul_comm]
        omega
      rw [if_neg (by omega), h.nodes i hold, List.getElem?_append_left hcell, node,
        List.getD_eq_getElem?_getD, List.getD_eq_getElem?_getD]
    · have hcell : i / cellSize = s.nodeIndexVec.length := by
        simp only [cellSize] at hcells hi ⊢
        omega
      rw [if_pos (by omega), hcell, List.getElem?_append_right le_rfl, Nat.sub_self]
      simp only [List.getElem?_cons_zero, Option.getD_some, List.getElem?_replicate]
      split <;> rfl

private theorem Represents.popReady (h : s.Represents p) (hwell : s.WellFormed) {index : Nat}
    {rest : List Nat} (hfree : s.freeNodeList = index :: rest) :
    (s.popReady index rest).2.Represents
      (p.popReady index (rest.map fun i : Nat => (i : Int))).2 := by
  have hlt : index < s.usedNodeSet.length :=
    hwell.exact.lt (by rw [slots, hfree]; exact List.mem_cons_self ..)
  have hindex : index < s.maxId := hwell.entries ▸ hlt
  have hpopped : NodeStore.Represents
      { s with freeNodeList := rest, usedNodeSet := s.usedNodeSet.set index true }
      { p with
        freeNodeList := rest.map fun i : Nat => (i : Int)
        usedNodeSet := Function.update p.usedNodeSet index true } := by
    refine ⟨h.maxId, rfl, fun i hi => ?_, h.nodes⟩
    simp only [List.getD_eq_getElem?_getD]
    by_cases heq : i = index
    · rw [heq, List.getElem?_set_self hlt, Function.update_self]
      rfl
    · have hcast : (i : Int) ≠ index := by omega
      rw [List.getElem?_set_ne (Ne.symm heq), Function.update_of_ne hcast, h.used i hi,
        List.getD_eq_getElem?_getD]
  have hset := hpopped.setNode (hwell.take hfree) hindex ((s.node index).reset ((index : Int) + 1))
  rw [← h.nodes index hindex] at hset
  rw [NodeStore.popReady, ← h.nodes index hindex]
  exact hset

private theorem Represents.getReadyNode (h : s.Represents p) (hwell : s.WellFormed) :
    (∀ e, s.getReadyNode = .error e → p.getReadyNode = .error e) ∧
    ∀ id t, s.getReadyNode = .ok (id, t) → ∃ q, p.getReadyNode = .ok (id, q) ∧ t.Represents q := by
  cases hfree : s.freeNodeList with
  | cons index rest =>
    have hget : s.getReadyNode = .ok (s.popReady index rest) := by
      rw [NodeStore.getReadyNode, hfree]
    have hget' : p.getReadyNode = .ok (p.popReady index (rest.map fun i : Nat => (i : Int))) := by
      rw [PoolManager.getReadyNode, h.free, hfree, List.map_cons]
    rw [hget, hget']
    refine ⟨(fun e he => by cases he), fun id t ht => ?_⟩
    cases ht
    exact ⟨_, rfl, h.popReady hwell hfree⟩
  | nil =>
    rw [NodeStore.getReadyNode, PoolManager.getReadyNode, h.free, hfree, List.map_nil]
    simp only [h.maxId]
    split
    · refine ⟨fun e he => ?_, fun id t ht => by cases ht⟩
      cases he
      rfl
    · refine ⟨(fun e he => by cases he), fun id t ht => ?_⟩
      cases ht
      have hexpanded := h.expandOnce hwell
      have hpop := hexpanded.popReady hwell.expandOnce (expandOnce_free s)
      have htail : p.expandOnce.freeNodeList.tail =
          s.expandOnce.freeNodeList.tail.map fun i : Nat => (i : Int) := by
        rw [hexpanded.free, List.map_tail]
      rw [← htail] at hpop
      exact ⟨_, rfl, hpop⟩

private theorem represents_new : new.Represents PoolManager.new :=
  Represents.expandOnce ⟨rfl, rfl, by simp, by simp⟩ ⟨rfl, rfl, by simp, Slots.exact_empty⟩

structure AnswersAlike (s : NodeStore) (p : PoolManager) : Prop where
  getNode : p.getReadyNode.map Prod.fst = s.getReadyNode.map Prod.fst
  getUsedNode : ∀ id, p.getUsedNode id = s.getUsedNode id
  returnNode : ∀ id, (p.returnNodeRetrying id).1 = (s.returnNodeRetrying id).1
  freeNodeTree : ∀ root, (p.freeNodeTree root).isSome ∧ (s.freeNodeTree root).isSome

private theorem Represents.answersAlike (h : s.Represents p) (hwell : s.WellFormed) : s.AnswersAlike p where
  getNode := by
    obtain ⟨herror, hok⟩ := h.getReadyNode hwell
    cases hget : s.getReadyNode with
    | error e => rw [herror e hget]; rfl
    | ok r =>
      obtain ⟨q, hq, -⟩ := hok r.1 r.2 hget
      rw [hq]
      rfl
  getUsedNode := h.getUsedNode
  returnNode id := (h.returnNodeRetrying hwell id).1
  freeNodeTree root := by
    obtain ⟨t, ht, -⟩ := hwell.freeNodeTree root
    obtain ⟨q, hq, -⟩ := h.freeNodeTree hwell ht
    rw [hq, ht]
    exact ⟨rfl, rfl⟩

private theorem setNode_of_ge (hwell : s.WellFormed) {index : Nat} (hindex : s.maxId ≤ index) (n : TraceNode) :
    s.setNode index n = s := by
  have hcells := hwell.cells
  have hout : s.nodeIndexVec.length ≤ index / cellSize := by
    rw [Nat.le_div_iff_mul_le (by decide), Nat.mul_comm]
    omega
  rw [setNode, List.modify_eq_self hout]

private theorem Represents.write (h : s.Represents p) (hwell : s.WellFormed) (index : Nat) (f : TraceNode → TraceNode) :
    (s.setNode index (f (s.node index))).Represents (p.modifyNode (index + 1) f) := by
  have hnode : p.nodeAt ((index : Int) + 1) = p.nodeIndexVec index := by
    rw [PoolManager.nodeAt, Int.add_sub_cancel]
  rw [PoolManager.modifyNode, hnode, Int.add_sub_cancel]
  by_cases hindex : index < s.maxId
  · rw [h.nodes index hindex]
    exact h.setNode hwell hindex _
  · rw [setNode_of_ge hwell (by omega)]
    refine ⟨h.maxId, h.free, h.used, fun i hi => ?_⟩
    have hne : (i : Int) ≠ index := by omega
    exact (Function.update_of_ne hne ..).trans (h.nodes i hi)

private theorem Represents.referNode (h : s.Represents p) (hwell : s.WellFormed) (hlive : s.Live id) :
    (s.setNode (id - 1).toNat { s.node (id - 1).toNat with
        referenceCount := (s.node (id - 1).toNat).referenceCount + 1 }).Represents
      (p.modifyNode id fun n => { n with referenceCount := n.referenceCount + 1 }) := by
  have hlo := (hwell.live_iff.1 hlive).1
  have hwrite := h.write hwell (id - 1).toNat fun n => { n with referenceCount := n.referenceCount + 1 }
  rw [show (((id - 1).toNat : Int) + 1) = id from by omega] at hwrite
  exact hwrite

private theorem Represents.call (h : s.Represents p) (hwell : s.WellFormed) {c : PoolCall} {t : NodeStore}
    (hcall : s.call c = some t) : ∃ q, p.call c = some q ∧ t.Represents q := by
  cases c with
  | getNode =>
    obtain ⟨herror, hok⟩ := h.getReadyNode hwell
    simp only [NodeStore.call] at hcall
    simp only [PoolManager.call]
    cases hget : s.getReadyNode with
    | error e =>
      rw [hget] at hcall
      obtain rfl := Option.some.inj hcall
      rw [herror e hget]
      exact ⟨p, rfl, h⟩
    | ok r =>
      rw [hget] at hcall
      obtain rfl := Option.some.inj hcall
      obtain ⟨q, hq, ht⟩ := hok r.1 r.2 hget
      rw [hq]
      exact ⟨q, rfl, ht⟩
  | referNode id =>
    simp only [NodeStore.call] at hcall
    simp only [PoolManager.call]
    rw [h.getUsedNode id]
    cases hget : s.getUsedNode id with
    | error e =>
      rw [hget] at hcall
      obtain rfl := Option.some.inj hcall
      exact ⟨p, rfl, h⟩
    | ok n =>
      rw [hget] at hcall
      obtain rfl := Option.some.inj hcall
      have hlive : s.Live id := getUsedNode_isOk.1 ⟨n, hget⟩
      have hn : n = s.node (id - 1).toNat := by
        rw [NodeStore.getUsedNode, if_neg hlive.ne_rootNode, if_pos hlive.indexInUsedVec] at hget
        exact (Except.ok.inj hget).symm
      subst hn
      exact ⟨_, rfl, h.referNode hwell hlive⟩
  | returnNode id =>
    obtain rfl := Option.some.inj hcall
    exact ⟨_, rfl, (h.returnNodeRetrying hwell id).2⟩
  | freeNodeTree id => exact h.freeNodeTree hwell hcall
  | write index f =>
    obtain rfl := Option.some.inj hcall
    exact ⟨_, rfl, h.write hwell index f⟩

private theorem Represents.exec (h : s.Represents p) (hwell : s.WellFormed) {calls : List PoolCall} {t : NodeStore}
    (hrun : Framework.exec NodeStore.call s calls = some t) :
    ∃ q, Framework.exec PoolManager.call p calls = some q ∧ t.Represents q := by
  induction calls generalizing s p with
  | nil =>
    obtain rfl := Option.some.inj hrun
    exact ⟨p, rfl, h⟩
  | cons c calls ih =>
    obtain ⟨u, hcall, hrest⟩ := Option.bind_eq_some_iff.1 hrun
    obtain ⟨v, hv, hrepresents⟩ := h.call hwell hcall
    obtain ⟨u', hcall', hwell'⟩ := hwell.call c
    obtain rfl : u = u' := Option.some.inj (hcall.symm.trans hcall')
    obtain ⟨q, hq, ht⟩ := ih hrepresents hwell' hrest
    exact ⟨q, by rw [Framework.exec, hv, Option.bind_some, hq], ht⟩

/-- Every sequence of calls, with whatever identifiers and whatever the callers write into the nodes, runs on both
pools, leaves them with the same contents, and every further call is answered alike. -/
theorem pools_answer_alike (calls : List PoolCall) :
    ∃ s p, exec NodeStore.call new calls = some s ∧ exec PoolManager.call PoolManager.new calls = some p ∧
      s.Represents p ∧ s.AnswersAlike p := by
  obtain ⟨s, hs, hwell⟩ := wellFormed_new.exec calls
  obtain ⟨p, hp, hrepresents⟩ := represents_new.exec wellFormed_new hs
  exact ⟨s, p, hs, hp, hrepresents, hrepresents.answersAlike hwell⟩

end NodeStore

end PinpointAgent.NodePool
