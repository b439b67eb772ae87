import PinpointAgent.NodePool.NodeStore

/-!
# The size limit of the node pool

`getReadyNode` compares `maxId` with `POOL_MAX_NODES_LIMIT` before it adds a cell, and refuses only when
the limit has been passed. A pool with exactly the limit of nodes, all in use, therefore grows once
more. The limit that the pool keeps is one cell above the constant, and up to the constant it behaves
as if the constant were the limit.
-/

namespace PinpointAgent.NodePool

open Framework

namespace NodeStore

variable {s t : NodeStore} {id : Int}

def RespectsLimit (s : NodeStore) : Prop :=
  s.totalNodesCount ≤ poolMaxNodesLimit ∧
    (s.getReadyNode = .error .poolLimit ↔ s.liveNodesCount = poolMaxNodesLimit)

/-! ## Growth -/

private theorem getReadyNode_poolLimit_iff :
    s.getReadyNode = .error .poolLimit ↔ s.freeNodeList = [] ∧ poolMaxNodesLimit < s.maxId := by
  unfold getReadyNode
  cases s.freeNodeList with
  | nil => by_cases hlimit : poolMaxNodesLimit < s.maxId <;> simp [hlimit]
  | cons index rest => simp

private theorem getReadyNode_eq_error {e : AgentError} (hget : s.getReadyNode = .error e) :
    e = .poolLimit := by
  unfold getReadyNode at hget
  split at hget
  · cases hget
  · split at hget
    · exact (Except.error.inj hget).symm
    · cases hget

private theorem WellFormed.totalNodesCount (h : s.WellFormed) : s.totalNodesCount = s.maxId := by
  rw [NodeStore.totalNodesCount, Nat.mul_comm]
  exact h.cells.symm

private theorem WellFormed.free_nil_iff (h : s.WellFormed) :
    s.freeNodeList = [] ↔ s.liveNodesCount = s.maxId := by
  have hcount := h.exact.count
  have hentries := h.entries
  simp only [slots] at hcount
  rw [← List.length_eq_zero_iff, liveNodesCount]
  omega

private theorem WellFormed.live_le (h : s.WellFormed) : s.liveNodesCount ≤ s.maxId := by
  have hcount := h.exact.count
  have hentries := h.entries
  simp only [slots] at hcount
  rw [liveNodesCount]
  omega

private theorem maxId_freeLoop {fuel : Nat} {next : Int} (hloop : s.freeLoop next fuel = some t) :
    t.maxId = s.maxId := by
  induction fuel generalizing s next with
  | zero =>
    rw [freeLoop] at hloop
    split at hloop
    · rw [Option.some.inj hloop]
    · cases hloop
  | succ fuel ih =>
    rw [freeLoop] at hloop
    split at hloop
    · rw [Option.some.inj hloop]
    · rw [ih hloop, maxId_returnNodeRetrying]

/-- Only a `GetNode` that finds no free node and a pool not above the limit adds a cell. -/
theorem maxId_call {c : PoolCall} (hcall : s.call c = some t) :
    t.maxId = s.maxId ∨
      s.freeNodeList = [] ∧ (s.maxId : Int) ≤ poolMaxNodesLimit ∧ t.maxId = s.maxId + cellSize := by
  cases c with
  | getNode =>
    simp only [call, getReadyNode] at hcall
    cases hfree : s.freeNodeList with
    | cons index rest =>
      simp only [hfree] at hcall
      exact .inl (Option.some.inj hcall ▸ rfl)
    | nil =>
      simp only [hfree] at hcall
      by_cases hlimit : poolMaxNodesLimit < s.maxId
      · simp only [if_pos hlimit] at hcall
        exact .inl (Option.some.inj hcall ▸ rfl)
      · simp only [if_neg hlimit] at hcall
        exact .inr ⟨rfl, Int.not_lt.1 hlimit, Option.some.inj hcall ▸ rfl⟩
  | referNode id =>
    simp only [call] at hcall
    cases hget : s.getUsedNode id with
    | ok n =>
      simp only [hget] at hcall
      exact .inl (Option.some.inj hcall ▸ rfl)
    | error e =>
      simp only [hget] at hcall
      exact .inl (Option.some.inj hcall ▸ rfl)
  | returnNode id => exact .inl (Option.some.inj hcall ▸ maxId_returnNodeRetrying s id)
  | freeNodeTree id =>
    simp only [call, freeNodeTree] at hcall
    split at hcall
    · exact .inl (Option.some.inj hcall ▸ rfl)
    · exact .inl ((maxId_freeLoop hcall).trans (maxId_returnNodeRetrying s id))
  | write index f => exact .inl (Option.some.inj hcall ▸ rfl)

/-! ## Bounds -/

/-- A well-formed pool of at most `bound` nodes. -/
structure Within (bound : Nat) (s : NodeStore) : Prop where
  wellFormed : s.WellFormed
  maxId_le : s.maxId ≤ bound

def hardLimit : Nat := 12928

private theorem Within.mono {small large : Nat} (h : s.Within small) (hle : small ≤ large) :
    s.Within large := ⟨h.wellFormed, h.maxId_le.trans hle⟩

private theorem within_new : new.Within 12800 := ⟨wellFormed_new, by decide⟩

private theorem Within.call {c : PoolCall} (h : s.Within hardLimit) (hcall : s.call c = some t) :
    t.Within hardLimit := by
  obtain ⟨u, hu, hwell⟩ := h.wellFormed.call c
  obtain rfl : u = t := Option.some.inj (hu.symm.trans hcall)
  have hle := h.maxId_le
  refine ⟨hwell, ?_⟩
  rcases maxId_call hcall with hsame | ⟨-, hlimit, hgrown⟩
  · omega
  · simp only [poolMaxNodesLimit, cellSize, hardLimit] at *
    omega

private theorem Within.poolLimit_iff (h : s.Within hardLimit) :
    s.getReadyNode = .error .poolLimit ↔ s.liveNodesCount = hardLimit := by
  have hcells := h.wellFormed.cells
  have hlive := h.wellFormed.live_le
  have hle := h.maxId_le
  rw [getReadyNode_poolLimit_iff, h.wellFormed.free_nil_iff]
  simp only [poolMaxNodesLimit, cellSize, hardLimit] at *
  omega

theorem pool_hard_limit {calls : List PoolCall} (hrun : exec call new calls = some s) :
    s.totalNodesCount ≤ hardLimit ∧
      (s.getReadyNode = .error .poolLimit ↔ s.liveNodesCount = hardLimit) := by
  have hnew : new.Within hardLimit := within_new.mono (by decide)
  have hwithin : s.Within hardLimit :=
    exec_invariant (fun _ _ _ h hcall => h.call hcall) hnew hrun
  refine ⟨?_, hwithin.poolLimit_iff⟩
  rw [hwithin.wellFormed.totalNodesCount]
  exact hwithin.maxId_le

theorem Within.respectsLimit_iff (h : s.Within 12800) :
    s.RespectsLimit ↔ s.liveNodesCount < poolMaxNodesLimit := by
  have hle := h.maxId_le
  have hlive := h.wellFormed.live_le
  have hgrows : s.getReadyNode ≠ .error .poolLimit := by
    rw [ne_eq, getReadyNode_poolLimit_iff]
    simp only [poolMaxNodesLimit]
    omega
  rw [RespectsLimit, h.wellFormed.totalNodesCount, iff_false_left hgrows]
  simp only [poolMaxNodesLimit]
  omega

theorem Within.call_of_live {c : PoolCall} (h : s.Within 12800)
    (hlive : s.liveNodesCount < poolMaxNodesLimit) (hcall : s.call c = some t) :
    t.Within 12800 := by
  obtain ⟨u, hu, hwell⟩ := h.wellFormed.call c
  obtain rfl : u = t := Option.some.inj (hu.symm.trans hcall)
  have hle := h.maxId_le
  have hcells := h.wellFormed.cells
  refine ⟨hwell, ?_⟩
  rcases maxId_call hcall with hsame | ⟨hfree, -, hgrown⟩
  · omega
  · rw [h.wellFormed.free_nil_iff] at hfree
    simp only [poolMaxNodesLimit, cellSize] at *
    omega

/-- A run of the pool keeps the promise of the constant in all of its states exactly when it never
has that many nodes in use. -/
theorem pool_respects_limit_iff (calls : List PoolCall) :
    Throughout call RespectsLimit new calls ↔
      Throughout call (fun s => s.liveNodesCount < poolMaxNodesLimit) new calls :=
  throughout_congr (I := Within 12800) (fun _ h => h.respectsLimit_iff)
    (fun _ _ _ h hlive hcall => h.call_of_live hlive hcall) within_new

/-! ## Filling the pool -/

private theorem liveNodesCount_popReady (h : s.WellFormed) {index : Nat} {rest : List Nat}
    (hfree : s.freeNodeList = index :: rest) :
    (s.popReady index rest).2.liveNodesCount = s.maxId - rest.length := by
  have hcount := (h.popReady hfree).exact.count
  have hentries := (h.popReady hfree).entries
  have hmax : (s.popReady index rest).2.maxId = s.maxId := rfl
  have hrest : (s.popReady index rest).2.freeNodeList = rest := rfl
  simp only [slots, hrest] at hcount
  rw [liveNodesCount]
  omega

private theorem liveNodesCount_getReadyNode (h : s.WellFormed) (hget : s.getReadyNode = .ok (id, t)) :
    t.liveNodesCount = s.liveNodesCount + 1 := by
  have hcount := h.exact.count
  have hentries := h.entries
  simp only [slots] at hcount
  unfold getReadyNode at hget
  cases hfree : s.freeNodeList with
  | cons index rest =>
    simp only [hfree] at hget hcount
    have hlive := liveNodesCount_popReady h hfree
    rw [Except.ok.inj hget] at hlive
    simp only [List.length_cons] at hcount
    simp only [liveNodesCount] at hlive ⊢
    omega
  | nil =>
    simp only [hfree] at hget hcount
    split at hget
    · cases hget
    · have hlive := liveNodesCount_popReady h.expandOnce (expandOnce_free s)
      rw [Except.ok.inj hget] at hlive
      have htail : s.expandOnce.freeNodeList.tail.length = cellSize - 1 := by
        simp [NodeStore.expandOnce, hfree]
      have hmax : s.expandOnce.maxId = s.maxId + cellSize := rfl
      rw [htail, hmax] at hlive
      simp only [List.length_nil] at hcount
      simp only [liveNodesCount, cellSize] at hlive ⊢
      omega

theorem Within.exec_getNode (h : s.Within hardLimit) {n : Nat}
    (hroom : s.liveNodesCount + n ≤ hardLimit) :
    ∃ t, exec NodeStore.call s (List.replicate n .getNode) = some t ∧ t.Within hardLimit ∧
      t.liveNodesCount = s.liveNodesCount + n := by
  induction n generalizing s with
  | zero => exact ⟨s, rfl, h, rfl⟩
  | succ n ih =>
    cases hget : s.getReadyNode with
    | error e =>
      have hlimit : s.getReadyNode = .error .poolLimit := getReadyNode_eq_error hget ▸ hget
      rw [h.poolLimit_iff] at hlimit
      omega
    | ok r =>
      obtain ⟨id, u⟩ := r
      have hcall : s.call .getNode = some u := by
        simp only [NodeStore.call, hget]
      have hlive := liveNodesCount_getReadyNode h.wellFormed hget
      obtain ⟨t, hrun, ht, hcount⟩ := ih (h.call hcall) (by omega)
      refine ⟨t, ?_, ht, by omega⟩
      rw [List.replicate_succ, exec, hcall, Option.bind_some, hrun]

/-- One call more than the limit: the pool has 128 nodes more than it should. -/
theorem pool_grows_past_limit :
    ∃ s, exec call new (List.replicate 12801 .getNode) = some s ∧ s.totalNodesCount = 12928 ∧
      ¬s.RespectsLimit := by
  have hnew : new.Within hardLimit := within_new.mono (by decide)
  have hnone : new.liveNodesCount = 0 := by decide
  obtain ⟨s, hrun, hwithin, hlive⟩ := hnew.exec_getNode (n := 12801) (by rw [hnone]; decide)
  have hle := hwithin.wellFormed.live_le
  have hmax := hwithin.maxId_le
  have hcells := hwithin.wellFormed.cells
  have htotal : s.totalNodesCount = 12928 := by
    rw [hwithin.wellFormed.totalNodesCount]
    simp only [hardLimit, cellSize] at *
    omega
  refine ⟨s, hrun, htotal, fun hlimit => ?_⟩
  have hbound := hlimit.1
  rw [htotal] at hbound
  exact absurd hbound (by decide)

end NodeStore

end PinpointAgent.NodePool
