import PinpointAgent.Framework.Interleaving
import PinpointAgent.Router.GrpcAgent
import Mathlib.Data.List.Nodup
/-!
# The agent router

`DispatchPacket` finds or creates the agent of a span's application id and puts the span on
its queue; `Clean` takes agents that were idle for too long out of the map and stops them.
Any number of calls of both run concurrently. Their atomic steps are the sections under
`rwMutex` (the lookup under the read lock, the second look and the creation under the write
lock, the removal of expired agents), the operations on a queue, and the stop of an agent.
-/


namespace PinpointAgent.Router

open Framework

/-- The configuration, and `json.Unmarshal` into a `TSpan`. Durations are in nanoseconds. -/
structure Config where
  unmarshal : String → Option TSpan
  startTime : Int
  agentRetireTime : Int
  statInterval : Int
  agentChannelSize : Nat

def Config.retireSec (cfg : Config) : Int := cfg.agentRetireTime.tdiv 1000000000

def Config.statIntervalSec (cfg : Config) : Int := cfg.statInterval.tdiv 1000000000

/-- Where a call of `DispatchPacket` stands. -/
inductive DispatchPc where
  | idle
  | decoded (span : TSpan) (info : AgentInfo)
  /-- The read-locked lookup found no agent. -/
  | missing (span : TSpan) (info : AgentInfo)
  | routed (span : TSpan) (agent : Nat)
  | returned (err : Option String)

/-- Where a call of `Clean` stands. -/
inductive CleanPc where
  | idle
  /-- `ctime` is read. -/
  | timed (ctime : Int)
  /-- The agents that are still to be stopped. -/
  | stopping (expired : List Nat)

def CleanPc.expired : CleanPc → List Nat
  | .stopping expired => expired
  | _ => []

/-- The router, its agents in the order of their creation, and the calls on it. -/
structure AgentRouter (ι κ : Type) where
  /-- `time.Now().Unix()` -/
  clock : Int
  agentMap : List (String × Nat)
  pingId : Int
  created : Nat
  agents : Nat → GrpcAgent κ
  calls : ι → DispatchPc
  cleans : κ → CleanPc

inductive RouterEvent (ι κ : Type) where
  | tick (sec : Nat)
  | decode (c : ι) (rawData : String)
  | lookup (c : ι)
  | create (c : ι)
  | send (c : ι)
  | consume (agent : Nat)
  /-- The consumer notices that the context is cancelled. -/
  | quit (agent : Nat)
  | beginClean (k : κ)
  | removeExpired (k : κ)
  /-- `Stop` of one of the removed agents; the map is ranged over in no fixed order. -/
  | stop (k : κ) (agent : Nat)

namespace AgentRouter

variable {ι κ : Type}

def init (clock : Int) : AgentRouter ι κ where
  clock := clock
  agentMap := []
  pingId := 1
  created := 0
  agents := fun _ => .create 0 ⟨"", "", 0, ""⟩ 0
  calls := fun _ => .idle
  cleans := fun _ => .idle

def setCall [DecidableEq ι] (s : AgentRouter ι κ) (c : ι) (pc : DispatchPc) : AgentRouter ι κ :=
  { s with calls := Function.update s.calls c pc }

def setClean [DecidableEq κ] (s : AgentRouter ι κ) (k : κ) (pc : CleanPc) : AgentRouter ι κ :=
  { s with cleans := Function.update s.cleans k pc }

def modifyAgent (s : AgentRouter ι κ) (i : Nat) (f : GrpcAgent κ → GrpcAgent κ) : AgentRouter ι κ :=
  { s with agents := Function.update s.agents i (f (s.agents i)) }

@[simp] theorem calls_setCall_self [DecidableEq ι] (s : AgentRouter ι κ) (c : ι) (pc : DispatchPc) :
    (s.setCall c pc).calls c = pc := Function.update_self ..

theorem calls_setCall_of_ne [DecidableEq ι] (s : AgentRouter ι κ) {c c' : ι} (pc : DispatchPc) (h : c' ≠ c) :
    (s.setCall c pc).calls c' = s.calls c' := Function.update_of_ne h ..

@[simp] theorem agents_setCall [DecidableEq ι] (s : AgentRouter ι κ) (c : ι) (pc : DispatchPc) :
    (s.setCall c pc).agents = s.agents := rfl

@[simp] theorem agents_modifyAgent_self (s : AgentRouter ι κ) (i : Nat)
    (f : GrpcAgent κ → GrpcAgent κ) : (s.modifyAgent i f).agents i = f (s.agents i) :=
  Function.update_self ..

theorem agents_modifyAgent_of_ne (s : AgentRouter ι κ) {i j : Nat}
    (f : GrpcAgent κ → GrpcAgent κ) (h : j ≠ i) : (s.modifyAgent i f).agents j = s.agents j :=
  Function.update_of_ne h ..

def decode (cfg : Config) (rawData : String) : DispatchPc :=
  match cfg.unmarshal rawData with
  | none => .returned (some ("input packet invalid " ++ rawData))
  | some span =>
    match getAgentInfo cfg.startTime span with
    | .error err => .returned (some err)
    | .ok info => .decoded span info

/-- The write-locked section of `DispatchPacket` when it finds no agent. -/
def createAgent (s : AgentRouter ι κ) (info : AgentInfo) : AgentRouter ι κ :=
  { s with
    agents := Function.update s.agents s.created (.create s.clock info s.pingId)
    created := s.created + 1
    pingId := toSigned 32 (s.pingId + 1)
    agentMap := (info.appid, s.created) :: s.agentMap }

@[simp] theorem agents_createAgent_self (s : AgentRouter ι κ) (info : AgentInfo) :
    (s.createAgent info).agents s.created = .create s.clock info s.pingId :=
  Function.update_self ..

theorem agents_createAgent_of_ne (s : AgentRouter ι κ) (info : AgentInfo) {i : Nat}
    (h : i ≠ s.created) : (s.createAgent info).agents i = s.agents i := Function.update_of_ne h ..

def isExpired (cfg : Config) (s : AgentRouter ι κ) (ctime : Int) (agent : Nat) : Bool :=
  (s.agents agent).getLastBusyTime + cfg.retireSec < ctime

def expired (cfg : Config) (s : AgentRouter ι κ) (ctime : Int) : List Nat :=
  (s.agentMap.filter fun entry => s.isExpired cfg ctime entry.2).map Prod.snd

/-- The locked section of `Clean`. -/
def removeExpired (cfg : Config) (s : AgentRouter ι κ) (k : κ) (ctime : Int) : AgentRouter ι κ :=
  { s with
    agentMap := s.agentMap.filter fun entry => !s.isExpired cfg ctime entry.2
    agents := fun i =>
      if i ∈ s.expired cfg ctime then { s.agents i with takenBy := k :: (s.agents i).takenBy }
      else s.agents i }

def step [DecidableEq ι] [DecidableEq κ] (cfg : Config) (s : AgentRouter ι κ) :
    RouterEvent ι κ → Option (AgentRouter ι κ)
  | .tick sec => some { s with clock := s.clock + sec }
  | .decode c rawData =>
    match s.calls c with
    | .idle => some (s.setCall c (decode cfg rawData))
    | _ => none
  | .lookup c =>
    match s.calls c with
    | .decoded span info =>
      match s.agentMap.lookup info.appid with
      | some i => some (s.setCall c (.routed span i))
      | none => some (s.setCall c (.missing span info))
    | _ => none
  | .create c =>
    match s.calls c with
    | .missing span info =>
      match s.agentMap.lookup info.appid with
      | some i => some (s.setCall c (.routed span i))
      | none => some ((s.createAgent info).setCall c (.routed span s.created))
    | _ => none
  | .send c =>
    match s.calls c with
    | .routed span i =>
      -- a full queue blocks the call
      if (s.agents i).queue.length < cfg.agentChannelSize then
        some ((s.modifyAgent i (·.sendSpan span)).setCall c (.returned none))
      else none
    | _ => none
  | .consume i =>
    match (s.agents i).consuming, (s.agents i).queue with
    | true, span :: rest => some (s.modifyAgent i (·.consume cfg.statIntervalSec s.clock span rest))
    | _, _ => none
  | .quit i =>
    if (s.agents i).cancelled then some (s.modifyAgent i ({ · with consuming := false })) else none
  | .beginClean k =>
    match s.cleans k with
    | .idle => some (s.setClean k (.timed s.clock))
    | _ => none
  | .removeExpired k =>
    match s.cleans k with
    | .timed ctime =>
      some ((s.removeExpired cfg k ctime).setClean k (.stopping (s.expired cfg ctime)))
    | _ => none
  | .stop k i =>
    match s.cleans k with
    | .stopping remaining =>
      if i ∈ remaining then
        some ((s.modifyAgent i (·.stop k)).setClean k (.stopping (remaining.erase i)))
      else none
    | _ => none

/-! ### Who holds an agent -/

/-- The agent is in `AgentMap`. -/
def InMap (s : AgentRouter ι κ) (i : Nat) : Prop := i ∈ s.agentMap.map Prod.snd

instance decidableInMap (s : AgentRouter ι κ) (i : Nat) : Decidable (s.InMap i) :=
  inferInstanceAs (Decidable (i ∈ s.agentMap.map Prod.snd))

/-- The facts about an agent that only creation, `Clean` and `Stop` change. -/
structure Ledger (κ : Type) where
  agentId : String
  pingId : Int
  cancelled : Bool
  takenBy : List κ
  stoppedBy : List κ

def ledger (s : AgentRouter ι κ) (i : Nat) : Ledger κ :=
  { agentId := (s.agents i).agentId, pingId := (s.agents i).pingId
    cancelled := (s.agents i).cancelled, takenBy := (s.agents i).takenBy
    stoppedBy := (s.agents i).stoppedBy }

/-- The agents a call of `Clean` has taken out and not stopped yet. -/
def pending (s : AgentRouter ι κ) (k : κ) : List Nat := (s.cleans k).expired

structure Booked (s : AgentRouter ι κ) : Prop where
  keys : (s.agentMap.map Prod.fst).Nodup
  values : (s.agentMap.map Prod.snd).Nodup
  entry : ∀ a i, (a, i) ∈ s.agentMap → i < s.created ∧ (s.ledger i).agentId = a
  /-- An agent in the map is untouched. -/
  kept : ∀ i, s.InMap i →
    (s.ledger i).takenBy = [] ∧ (s.ledger i).stoppedBy = [] ∧ (s.ledger i).cancelled = false
  /-- Any other has been taken out by one call, and is stopped by that call, once. -/
  retired : ∀ i < s.created, ¬ s.InMap i → ∃ k, (s.ledger i).takenBy = [k] ∧
    (s.ledger i).stoppedBy = if i ∈ s.pending k then [] else [k]
  taken : ∀ k i, i ∈ s.pending k → i < s.created ∧ (s.ledger i).takenBy = [k]
  pendingNodup : ∀ k, (s.pending k).Nodup
  pingIds : ∀ i < s.created, (s.ledger i).pingId = toSigned 32 (i + 1)
  nextPingId : s.pingId = toSigned 32 (s.created + 1)

theorem booked_init (clock : Int) : (init clock : AgentRouter ι κ).Booked where
  keys := List.nodup_nil
  values := List.nodup_nil
  entry a i h := by simp [init] at h
  kept i h := by simp [InMap, init] at h
  retired i h := by simp [init] at h
  taken k i h := by simp [pending, init, CleanPc.expired] at h
  pendingNodup k := List.nodup_nil
  pingIds i h := by simp [init] at h
  nextPingId := by simp [init, toSigned]

variable {cfg : Config} {s t : AgentRouter ι κ}

theorem Booked.congr (h : s.Booked) (hmap : t.agentMap = s.agentMap) (hcreated : t.created = s.created)
    (hping : t.pingId = s.pingId) (hledger : ∀ i, t.ledger i = s.ledger i)
    (hpending : ∀ k, t.pending k = s.pending k) : t.Booked := by
  have hin : ∀ i, t.InMap i ↔ s.InMap i := fun i => by rw [InMap, InMap, hmap]
  constructor
  · rw [hmap]
    exact h.keys
  · rw [hmap]
    exact h.values
  · intro a i hi
    rw [hmap] at hi
    rw [hledger, hcreated]
    exact h.entry a i hi
  · intro i hi
    rw [hledger]
    exact h.kept i ((hin i).mp hi)
  · intro i hi hout
    rw [hcreated] at hi
    simp only [hledger, hpending]
    exact h.retired i hi (fun hmem => hout ((hin i).mpr hmem))
  · intro k i hi
    rw [hpending] at hi
    rw [hledger, hcreated]
    exact h.taken k i hi
  · intro k
    rw [hpending]
    exact h.pendingNodup k
  · intro i hi
    rw [hcreated] at hi
    rw [hledger]
    exact h.pingIds i hi
  · rw [hping, hcreated]
    exact h.nextPingId

private theorem Booked.setCall [DecidableEq ι] (h : s.Booked) (c : ι) (pc : DispatchPc) : (s.setCall c pc).Booked :=
  h.congr rfl rfl rfl (fun _ => rfl) (fun _ => rfl)

private theorem Booked.modifyAgent (h : s.Booked) (i : Nat) (f : GrpcAgent κ → GrpcAgent κ)
    (hf : (s.modifyAgent i f).ledger i = s.ledger i) : (s.modifyAgent i f).Booked := by
  refine h.congr rfl rfl rfl (fun j => ?_) (fun _ => rfl)
  by_cases hj : j = i
  · rw [hj, hf]
  · simp only [ledger, agents_modifyAgent_of_ne s f hj]

private theorem Booked.lt_created (h : s.Booked) {i : Nat} (hi : s.InMap i) : i < s.created := by
  obtain ⟨⟨a, j⟩, hmem, rfl⟩ := List.mem_map.mp hi
  exact (h.entry a j hmem).1

private theorem Booked.createAgent (h : s.Booked) (info : AgentInfo)
    (hnone : s.agentMap.lookup info.appid = none) : (s.createAgent info).Booked := by
  have hself : (s.createAgent info).ledger s.created =
      ⟨info.appid, s.pingId, false, [], []⟩ := by
    simp only [ledger, agents_createAgent_self, GrpcAgent.create]
  have hother : ∀ i, i ≠ s.created → (s.createAgent info).ledger i = s.ledger i := by
    intro i hi
    simp only [ledger, agents_createAgent_of_ne s info hi]
  have hold : ∀ i < s.created, (s.createAgent info).ledger i = s.ledger i :=
    fun i hi => hother i hi.ne
  have hin : ∀ i, (s.createAgent info).InMap i ↔ i = s.created ∨ s.InMap i := by
    intro i
    simp only [InMap, AgentRouter.createAgent, List.map_cons, List.mem_cons]
  constructor
  · refine List.nodup_cons.mpr ⟨fun hmem => ?_, h.keys⟩
    obtain ⟨⟨a, i⟩, hmem, rfl⟩ := List.mem_map.mp hmem
    have hne := List.lookup_eq_none_iff.mp hnone _ hmem
    simp at hne
  · exact List.nodup_cons.mpr ⟨fun hmem => absurd (h.lt_created hmem) (lt_irrefl _), h.values⟩
  · intro a i hmem
    rcases List.mem_cons.mp hmem with heq | hmem
    · cases heq
      exact ⟨Nat.lt_succ_self _, by rw [hself]⟩
    · obtain ⟨hlt, hid⟩ := h.entry a i hmem
      exact ⟨hlt.trans (Nat.lt_succ_self _), by rw [hold i hlt, hid]⟩
  · intro i hi
    rcases (hin i).mp hi with rfl | hi
    · rw [hself]
      exact ⟨rfl, rfl, rfl⟩
    · rw [hold i (h.lt_created hi)]
      exact h.kept i hi
  · intro i hi hout
    have hne : i ≠ s.created := fun heq => hout ((hin i).mpr (.inl heq))
    have hlt : i < s.created := by
      have : i < s.created + 1 := hi
      omega
    rw [hold i hlt]
    exact h.retired i hlt (fun hmem => hout ((hin i).mpr (.inr hmem)))
  · intro k i hi
    obtain ⟨hlt, htaken⟩ := h.taken k i hi
    exact ⟨hlt.trans (Nat.lt_succ_self _), by rw [hold i hlt, htaken]⟩
  · exact h.pendingNodup
  · intro i hi
    have hle : i < s.created + 1 := hi
    by_cases heq : i = s.created
    · rw [heq, hself]
      exact h.nextPingId
    · rw [hother i heq]
      exact h.pingIds i (by omega)
  · change toSigned 32 (s.pingId + 1) = toSigned 32 ((s.created + 1 : Nat) + 1)
    rw [h.nextPingId, toSigned_32_succ]
    push_cast
    rfl

theorem mem_expired {ctime : Int} {i : Nat} :
    i ∈ s.expired cfg ctime ↔ s.InMap i ∧ s.isExpired cfg ctime i := by
  simp only [expired, InMap, List.mem_map, List.mem_filter]
  constructor
  · rintro ⟨entry, ⟨hmem, hexp⟩, rfl⟩
    exact ⟨⟨entry, hmem, rfl⟩, hexp⟩
  · rintro ⟨⟨entry, hmem, rfl⟩, hexp⟩
    exact ⟨entry, ⟨hmem, hexp⟩, rfl⟩

theorem inMap_removeExpired {k : κ} {ctime : Int} {i : Nat} :
    (s.removeExpired cfg k ctime).InMap i ↔ s.InMap i ∧ i ∉ s.expired cfg ctime := by
  rw [mem_expired]
  simp only [InMap, AgentRouter.removeExpired, List.mem_map, List.mem_filter, Bool.not_eq_true',
    not_and, Bool.not_eq_true]
  constructor
  · rintro ⟨entry, ⟨hmem, hexp⟩, rfl⟩
    exact ⟨⟨entry, hmem, rfl⟩, fun _ => hexp⟩
  · rintro ⟨⟨entry, hmem, rfl⟩, hexp⟩
    exact ⟨entry, ⟨hmem, hexp ⟨entry, hmem, rfl⟩⟩, rfl⟩

theorem inMap_setClean [DecidableEq κ] {k : κ} {pc : CleanPc} {i : Nat} :
    (s.setClean k pc).InMap i ↔ s.InMap i := Iff.rfl

theorem Booked.removeExpired [DecidableEq κ] (h : s.Booked) (k : κ) (ctime : Int) (hk : s.pending k = []) :
    ((s.removeExpired cfg k ctime).setClean k (.stopping (s.expired cfg ctime))).Booked := by
  set t := (s.removeExpired cfg k ctime).setClean k (.stopping (s.expired cfg ctime)) with ht
  have hin : ∀ i, t.InMap i ↔ s.InMap i ∧ i ∉ s.expired cfg ctime := by
    intro i
    rw [ht, inMap_setClean, inMap_removeExpired]
  have hpending : t.pending k = s.expired cfg ctime := by
    simp only [pending, ht, setClean, Function.update_self, CleanPc.expired]
  have hothers : ∀ k', k' ≠ k → t.pending k' = s.pending k' := by
    intro k' hne
    simp only [pending, ht, setClean, Function.update_of_ne hne, AgentRouter.removeExpired]
  have hgone : ∀ i ∈ s.expired cfg ctime, t.ledger i =
      { s.ledger i with takenBy := k :: (s.ledger i).takenBy } := by
    intro i hi
    simp only [ledger, ht, setClean, AgentRouter.removeExpired, if_pos hi]
  have hsame : ∀ i, i ∉ s.expired cfg ctime → t.ledger i = s.ledger i := by
    intro i hi
    simp only [ledger, ht, setClean, AgentRouter.removeExpired, if_neg hi]
  have hcreated : t.created = s.created := rfl
  have hping : t.pingId = s.pingId := rfl
  have hsub : t.agentMap.Sublist s.agentMap := List.filter_sublist
  clear_value t
  have hids : ∀ i, (t.ledger i).agentId = (s.ledger i).agentId ∧
      (t.ledger i).pingId = (s.ledger i).pingId := by
    intro i
    by_cases hi : i ∈ s.expired cfg ctime
    · rw [hgone i hi]
      exact ⟨rfl, rfl⟩
    · rw [hsame i hi]
      exact ⟨rfl, rfl⟩
  -- what another call has pending is not in the map, so it is not taken out again
  have hfresh : ∀ k' i, i ∈ s.pending k' → i ∉ s.expired cfg ctime := by
    intro k' i hi hexp
    have := (h.kept i (mem_expired.mp hexp).1).1
    rw [(h.taken k' i hi).2] at this
    contradiction
  have hpend : ∀ k' i, i ∉ s.expired cfg ctime → (i ∈ t.pending k' ↔ i ∈ s.pending k') := by
    intro k' i hi
    by_cases hk' : k' = k
    · rw [hk', hpending, hk]
      simpa using hi
    · rw [hothers k' hk']
  constructor
  · exact h.keys.sublist (hsub.map _)
  · exact h.values.sublist (hsub.map _)
  · intro a i hmem
    rw [(hids i).1, hcreated]
    exact h.entry a i (hsub.subset hmem)
  · intro i hi
    rw [hsame i ((hin i).mp hi).2]
    exact h.kept i ((hin i).mp hi).1
  · intro i hi hout
    rw [hcreated] at hi
    by_cases hexp : i ∈ s.expired cfg ctime
    · obtain ⟨htaken, hstopped, -⟩ := h.kept i (mem_expired.mp hexp).1
      refine ⟨k, ?_, ?_⟩
      · rw [hgone i hexp, htaken]
      · rw [hgone i hexp, hstopped, hpending, if_pos hexp]
    · obtain ⟨k', htaken, hstopped⟩ := h.retired i hi (fun hmem => hout ((hin i).mpr ⟨hmem, hexp⟩))
      refine ⟨k', ?_, ?_⟩
      · rw [hsame i hexp, htaken]
      · rw [hsame i hexp, hstopped]
        exact if_congr (hpend k' i hexp).symm rfl rfl
  · intro k' i hi
    rw [hcreated]
    by_cases hexp : i ∈ s.expired cfg ctime
    · have hk' : k' = k := by
        by_contra hne
        exact hfresh k' i (hothers k' hne ▸ hi) hexp
      have hmem := (mem_expired.mp hexp).1
      rw [hk', hgone i hexp, (h.kept i hmem).1]
      exact ⟨h.lt_created hmem, rfl⟩
    · rw [hsame i hexp]
      exact h.taken k' i ((hpend k' i hexp).mp hi)
  · intro k'
    by_cases hk' : k' = k
    · rw [hk', hpending]
      exact h.values.sublist (List.filter_sublist.map _)
    · rw [hothers k' hk']
      exact h.pendingNodup k'
  · intro i hi
    rw [(hids i).2]
    exact h.pingIds i (hcreated ▸ hi)
  · rw [hping, hcreated]
    exact h.nextPingId

private theorem Booked.stop [DecidableEq κ] (h : s.Booked) (k : κ) {i : Nat} (hi : i ∈ s.pending k) :
    ((s.modifyAgent i (·.stop k)).setClean k (.stopping ((s.pending k).erase i))).Booked := by
  set t := (s.modifyAgent i (·.stop k)).setClean k (.stopping ((s.pending k).erase i)) with ht
  obtain ⟨hlt, htaken⟩ := h.taken k i hi
  have hnodup := h.pendingNodup k
  have hself : t.ledger i =
      { s.ledger i with cancelled := true, stoppedBy := k :: (s.ledger i).stoppedBy } := by
    simp only [ledger, ht, setClean, AgentRouter.modifyAgent, Function.update_self, GrpcAgent.stop]
  have hother : ∀ j, j ≠ i → t.ledger j = s.ledger j := by
    intro j hj
    simp only [ledger, ht, setClean, AgentRouter.modifyAgent, Function.update_of_ne hj]
  have hpending : t.pending k = (s.pending k).erase i := by
    simp only [pending, ht, setClean, Function.update_self, CleanPc.expired]
  have hothers : ∀ k', k' ≠ k → t.pending k' = s.pending k' := by
    intro k' hne
    simp only [pending, ht, setClean, Function.update_of_ne hne, AgentRouter.modifyAgent]
  have hcreated : t.created = s.created := rfl
  have hping : t.pingId = s.pingId := rfl
  have hmap : t.agentMap = s.agentMap := rfl
  clear_value t
  have hin : ∀ j, t.InMap j ↔ s.InMap j := fun j => by rw [InMap, InMap, hmap]
  have hpend : ∀ k' j, j ≠ i → (j ∈ t.pending k' ↔ j ∈ s.pending k') := by
    intro k' j hj
    by_cases hk' : k' = k
    · rw [hk', hpending, List.mem_erase_of_ne hj]
    · rw [hothers k' hk']
  have hids : ∀ j, (t.ledger j).agentId = (s.ledger j).agentId ∧
      (t.ledger j).pingId = (s.ledger j).pingId ∧ (t.ledger j).takenBy = (s.ledger j).takenBy := by
    intro j
    by_cases hj : j = i
    · rw [hj, hself]
      exact ⟨rfl, rfl, rfl⟩
    · rw [hother j hj]
      exact ⟨rfl, rfl, rfl⟩
  -- the agent to be stopped is in the map no more
  have hout : ¬ s.InMap i := by
    intro hmem
    have := (h.kept i hmem).1
    rw [htaken] at this
    contradiction
  have hsub : ∀ k' j, j ∈ t.pending k' → j ∈ s.pending k' := by
    intro k' j hj
    by_cases hk' : k' = k
    · rw [hk', hpending] at hj
      rw [hk']
      exact List.mem_of_mem_erase hj
    · rwa [hothers k' hk'] at hj
  constructor
  · rw [hmap]
    exact h.keys
  · rw [hmap]
    exact h.values
  · intro a j hmem
    rw [hmap] at hmem
    rw [(hids j).1, hcreated]
    exact h.entry a j hmem
  · intro j hj
    rw [hin] at hj
    have hne : j ≠ i := fun heq => hout (heq ▸ hj)
    rw [hother j hne]
    exact h.kept j hj
  · intro j hj hjout
    rw [hcreated] at hj
    rw [hin] at hjout
    by_cases heq : j = i
    · obtain ⟨k', htaken', hstopped⟩ := h.retired i hlt hout
      have hk' : k' = k := by
        rw [htaken] at htaken'
        exact (List.cons.inj htaken').1.symm
      refine ⟨k, ?_, ?_⟩
      · rw [heq, (hids i).2.2, htaken]
      · have hgone : i ∉ t.pending k := by
          rw [hpending]
          exact hnodup.not_mem_erase
        rw [heq, hself, hstopped, hk', if_pos hi, if_neg hgone]
    · obtain ⟨k', htaken', hstopped⟩ := h.retired j hj hjout
      refine ⟨k', ?_, ?_⟩
      · rw [hother j heq, htaken']
      · rw [hother j heq, hstopped]
        exact if_congr (hpend k' j heq).symm rfl rfl
  · intro k' j hj
    rw [(hids j).2.2, hcreated]
    exact h.taken k' j (hsub k' j hj)
  · intro k'
    by_cases hk' : k' = k
    · rw [hk', hpending]
      exact hnodup.erase i
    · rw [hothers k' hk']
      exact h.pendingNodup k'
  · intro j hj
    rw [(hids j).2.1]
    exact h.pingIds j (hcreated ▸ hj)
  · rw [hping, hcreated]
    exact h.nextPingId

variable [DecidableEq ι] [DecidableEq κ]

theorem Booked.step (h : s.Booked) {e : RouterEvent ι κ} (hstep : s.step cfg e = some t) :
    t.Booked := by
  cases e with
  | tick sec =>
    cases hstep
    exact h.congr rfl rfl rfl (fun _ => rfl) (fun _ => rfl)
  | decode c rawData =>
    simp only [AgentRouter.step] at hstep
    split at hstep <;> cases hstep
    exact h.setCall c _
  | lookup c =>
    simp only [AgentRouter.step] at hstep
    split at hstep
    · split at hstep <;> cases hstep <;> exact h.setCall c _
    · contradiction
  | create c =>
    simp only [AgentRouter.step] at hstep
    split at hstep
    · split at hstep <;> cases hstep
      · exact h.setCall c _
      · exact (h.createAgent _ ‹_›).setCall c _
    · contradiction
  | send c =>
    simp only [AgentRouter.step] at hstep
    split at hstep
    · split at hstep <;> cases hstep
      refine (h.modifyAgent _ _ ?_).setCall c _
      simp only [ledger, agents_modifyAgent_self, GrpcAgent.sendSpan]
    · contradiction
  | consume i =>
    simp only [AgentRouter.step] at hstep
    split at hstep <;> cases hstep
    refine h.modifyAgent _ _ ?_
    simp only [ledger, agents_modifyAgent_self, GrpcAgent.consume]
  | quit i =>
    simp only [AgentRouter.step] at hstep
    split at hstep <;> cases hstep
    refine h.modifyAgent _ _ ?_
    simp only [ledger, agents_modifyAgent_self]
  | beginClean k =>
    simp only [AgentRouter.step] at hstep
    split at hstep <;> cases hstep
    refine h.congr rfl rfl rfl (fun _ => rfl) (fun k' => ?_)
    by_cases hk : k' = k
    · simp only [pending, setClean, Function.update_self, CleanPc.expired, *]
    · simp only [pending, setClean, Function.update_of_ne hk]
  | removeExpired k =>
    simp only [AgentRouter.step] at hstep
    split at hstep <;> cases hstep
    exact h.removeExpired k _ (by simp only [pending, CleanPc.expired, *])
  | stop k i =>
    simp only [AgentRouter.step] at hstep
    split at hstep
    · rename_i remaining hk
      have hremaining : s.pending k = remaining := by simp only [pending, hk, CleanPc.expired]
      split at hstep <;> cases hstep
      rw [← hremaining]
      exact h.stop k (hremaining ▸ ‹_›)
    · contradiction

/-- An agent is created only by the write-locked section of `DispatchPacket`, and only when
the map has no agent for the span's application id. -/
theorem created_of_step {e : RouterEvent ι κ} (hstep : s.step cfg e = some t)
    (hnew : t.created ≠ s.created) :
    t.created = s.created + 1 ∧ s.agentMap.lookup (t.agents s.created).agentId = none := by
  cases e with
  | create c =>
    simp only [AgentRouter.step] at hstep
    split at hstep
    · split at hstep <;> cases hstep
      · exact absurd rfl hnew
      · refine ⟨rfl, ?_⟩
        simpa only [agents_setCall, agents_createAgent_self, GrpcAgent.create]
    · contradiction
  | _ =>
    simp only [AgentRouter.step] at hstep
    repeat' split at hstep
    all_goals cases hstep <;> exact absurd rfl hnew

private theorem Booked.exec {clock : Int} {events : List (RouterEvent ι κ)}
    (hrun : Framework.exec (AgentRouter.step cfg) (init clock) events = some s) : s.Booked :=
  exec_invariant (fun _ _ _ h hstep => h.step hstep) (booked_init clock) hrun

/-- The bookkeeping of the router under any interleaving of `DispatchPacket` and `Clean`. -/
theorem router_bookkeeping (cfg : Config) (clock : Int) (events : List (RouterEvent ι κ))
    (s : AgentRouter ι κ) (hrun : exec (step cfg) (init clock) events = some s) :
    (∀ e t, s.step cfg e = some t → t.created ≠ s.created →
      t.created = s.created + 1 ∧ s.agentMap.lookup (t.agents s.created).agentId = none) ∧
    (∀ i < s.created,
      (s.InMap i ∧ (s.agents i).takenBy = [] ∧ (s.agents i).stoppedBy = []) ∨
      (¬ s.InMap i ∧ ∃ k, (s.agents i).takenBy = [k] ∧
        (i ∈ s.pending k ∧ (s.agents i).stoppedBy = [] ∨
          i ∉ s.pending k ∧ (s.agents i).stoppedBy = [k]))) ∧
    (∀ a i, (a, i) ∈ s.agentMap → (s.agents i).agentId = a ∧ (s.agents i).cancelled = false) ∧
    (s.created < 2147483648 → ∀ i < s.created, ∀ j < s.created,
      (s.agents i).pingId = (s.agents j).pingId → i = j) := by
  have h := Booked.exec hrun
  refine ⟨fun e t => created_of_step, ?_, ?_, ?_⟩
  · intro i hi
    by_cases hmem : s.InMap i
    · obtain ⟨htaken, hstopped, -⟩ := h.kept i hmem
      exact .inl ⟨hmem, htaken, hstopped⟩
    · obtain ⟨k, htaken, hstopped⟩ := h.retired i hi hmem
      refine .inr ⟨hmem, k, htaken, ?_⟩
      by_cases hk : i ∈ s.pending k
      · exact .inl ⟨hk, hstopped.trans (if_pos hk)⟩
      · exact .inr ⟨hk, hstopped.trans (if_neg hk)⟩
  · intro a i hmem
    exact ⟨(h.entry a i hmem).2, (h.kept i (List.mem_map.mpr ⟨_, hmem, rfl⟩)).2.2⟩
  · intro hfew i hi j hj heq
    have hping := (h.pingIds i hi).symm.trans (heq.trans (h.pingIds j hj))
    rw [toSigned_32_eq (by omega) (by omega), toSigned_32_eq (by omega) (by omega)] at hping
    omega

/-- Every packet is a span of the application it names. -/
def plainConfig : Config where
  unmarshal rawData := some { appId := rawData, appName := "shop", appServerType := 1500 }
  startTime := 1700000000
  agentRetireTime := 3600000000000
  statInterval := 5000000000
  agentChannelSize := 1000

/-- Two first spans of one application at the same time, and a `Clean` after an idle hour. -/
def twoFirstSpans : List (RouterEvent Bool Unit) :=
  [.decode false "shop-1", .decode true "shop-1", .lookup false, .lookup true, .create false, .create true, .send true,
    .send false, .consume 0, .consume 0, .tick 3601, .beginClean (), .removeExpired (), .stop () 0]

theorem router_bookkeeping_two_first_spans :
    ∃ s, exec (step plainConfig) (init 1700000000) twoFirstSpans = some s ∧ s.created = 1 ∧
      ¬ s.InMap 0 ∧ ∃ k, (s.agents 0).takenBy = [k] ∧ (s.agents 0).stoppedBy = [k] := by
  refine ⟨_, rfl, rfl, ?_⟩
  obtain ⟨-, hfate, -⟩ := router_bookkeeping plainConfig 1700000000 twoFirstSpans _ rfl
  rcases hfate 0 (by decide +kernel) with ⟨hin, -⟩ | ⟨hout, k, htaken, hstopped⟩
  · exact absurd hin (by decide +kernel)
  · refine ⟨hout, k, htaken, ?_⟩
    rcases hstopped with ⟨hpending, -⟩ | ⟨-, hstopped⟩
    · cases k
      exact absurd hpending (by decide +kernel)
    · exact hstopped

end AgentRouter

end PinpointAgent.Router
