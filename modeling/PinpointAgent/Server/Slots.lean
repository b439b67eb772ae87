import PinpointAgent.Framework.Census
import PinpointAgent.Server.Shutdown

/-!
# The slots of the server

`startListen` takes a slot of `connSem` for every connection it hands to a goroutine, and rejects
the connection when there is none; the goroutine gives the slot back in one deferred call and
leaves the wait group in another. So the slots, the wait group and `conns` count different
goroutines at any one time, and each agrees with where every goroutine stands.
-/

namespace PinpointAgent.Server

open Framework

def HandlerPc.holdsSlot : HandlerPc → Bool
  | .serving | .closed | .untracked => true
  | .idle | .released | .done => false

/-- The goroutine has been started and has not called `s.wg.Done()`. -/
def HandlerPc.running : HandlerPc → Bool
  | .serving | .closed | .untracked | .released => true
  | .idle | .done => false

/-- The connection is to be found in `conns`. -/
def HandlerPc.tracked : HandlerPc → Bool
  | .serving | .closed => true
  | .idle | .untracked | .released | .done => false

/-- `startListen` has a slot that it has not passed on to a goroutine. -/
def ListenPc.holdsSlot : ListenPc → Bool
  | .slotted _ | .tracked _ | .counted _ => true
  | _ => false

/-- The wait group counts a goroutine that `startListen` has not started yet. -/
def ListenPc.counts : ListenPc → Bool
  | .counted _ => true
  | _ => false

private theorem ListenPc.of_not_holdsSlot {pc : ListenPc} (h : pc.holdsSlot = false) :
    pc.counts = false ∧ pc.registered = none := by
  cases pc <;> first | exact ⟨rfl, rfl⟩ | cases h

private theorem HandlerPc.of_not_running {pc : HandlerPc} (h : pc.running = false) :
    pc.holdsSlot = false ∧ pc.tracked = false ∧ pc ≠ .serving := by
  cases pc <;> first | exact ⟨rfl, rfl, by simp⟩ | cases h

namespace ServerState

def holders (s : ServerState) : Nat := census s.accepted fun c => (s.handler c).holdsSlot

def running (s : ServerState) : Nat := census s.accepted fun c => (s.handler c).running

structure Counted (limit : Nat) (s : ServerState) : Prop where
  slots : s.slots = s.holders + s.listenPc.holdsSlot.toNat
  slots_le : s.slots ≤ limit
  wg : s.wg = s.running + s.listenPc.counts.toNat + (!s.listenDone).toNat
  returned : s.listenDone = true → s.listenPc = .returned
  pending : ∀ c, s.listenPc.conn = some c → c < s.accepted ∧ s.handler c = .idle
  fresh : ∀ c, s.accepted ≤ c → s.handler c = .idle
  conns : ∀ c, s.conns c = true ↔ s.listenPc.registered = some c ∨ (s.handler c).tracked = true
  /-- every connection is at `startListen`, has its goroutine, or is closed -/
  fate : ∀ c < s.accepted, s.listenPc.conn = some c ∨ s.handler c = .serving ∨ s.closed c = true

private theorem counted_init (limit : Nat) : Counted limit init where
  slots := rfl
  slots_le := Nat.zero_le _
  wg := rfl
  returned h := by cases h
  pending c h := by cases h
  fresh c h := rfl
  conns c := by simp [init, HandlerPc.tracked, ListenPc.registered]
  fate c h := absurd h (Nat.not_lt_zero c)

variable {s t : ServerState} {e : ServerEvent} {limit : Nat}

private theorem census_handler_update (s : ServerState) (p : HandlerPc → Bool) {c : Nat}
    (hc : c < s.accepted) (pc : HandlerPc) :
    census s.accepted (fun k => p (Function.update s.handler c pc k)) + (p (s.handler c)).toNat =
      census s.accepted (fun k => p (s.handler k)) + (p pc).toNat := by
  have hchange := census_of_ne (p := fun k => p (Function.update s.handler c pc k))
    (q := fun k => p (s.handler k)) hc (fun k hk => by rw [Function.update_of_ne hk])
  simpa using hchange

private theorem Counted.not_registered (h : Counted limit s) {c : Nat} (hbusy : s.handler c ≠ .idle) :
    s.listenPc.registered ≠ some c := fun hc =>
  hbusy (h.pending c (ListenPc.conn_of_registered hc)).2

private theorem Counted.lt_accepted (h : Counted limit s) {c : Nat} (hc : s.handler c ≠ .idle) :
    c < s.accepted := by
  by_contra hge
  exact hc (h.fresh c (Nat.le_of_not_lt hge))

/-! ### The steps of `startListen` -/

private theorem Counted.listenTo (h : Counted limit s) {t : ServerState}
    (haccepted : t.accepted = s.accepted) (hhandler : t.handler = s.handler)
    (hslots : t.slots = s.holders + t.listenPc.holdsSlot.toNat) (hle : t.slots ≤ limit)
    (hwg : t.wg = s.running + t.listenPc.counts.toNat + (!t.listenDone).toNat)
    (hdone : t.listenDone = true → t.listenPc = .returned)
    (hconn : ∀ c, t.listenPc.conn = some c → s.listenPc.conn = some c)
    (hconns : ∀ c,
      t.conns c = true ↔ t.listenPc.registered = some c ∨ (s.handler c).tracked = true)
    (hleft : ∀ c, s.listenPc.conn = some c → t.listenPc.conn = some c ∨ t.closed c = true)
    (hclosed : ∀ c, s.closed c = true → t.closed c = true) : Counted limit t := by
  have hholders : t.holders = s.holders := by rw [holders, holders, haccepted, hhandler]
  have hrunning : t.running = s.running := by rw [running, running, haccepted, hhandler]
  exact {
    slots := by rw [hslots, hholders]
    slots_le := hle
    wg := by rw [hwg, hrunning]
    returned := hdone
    pending := fun c hc => by
      rw [haccepted, hhandler]
      exact h.pending c (hconn c hc)
    fresh := fun c hc => by
      rw [hhandler]
      exact h.fresh c (haccepted ▸ hc)
    conns := fun c => by rw [hconns, hhandler]
    fate := fun c hc => by
      rw [hhandler]
      rcases h.fate c (haccepted ▸ hc) with hpending | hserving | hend
      · exact (hleft c hpending).imp_right .inr
      · exact .inr (.inl hserving)
      · exact .inr (.inr (hclosed c hend)) }

private theorem Counted.not_listenDone (h : Counted limit s) (hpc : s.listenPc ≠ .returned) :
    s.listenDone = false := by
  by_contra hdone
  exact hpc (h.returned (by simpa using hdone))

private theorem Counted.idleCounts (h : Counted limit s) (hslot : s.listenPc.holdsSlot = false) :
    s.slots = s.holders ∧ s.wg = s.running + (!s.listenDone).toNat ∧
      ∀ c, s.conns c = true ↔ (s.handler c).tracked = true := by
  obtain ⟨hcounts, hregistered⟩ := ListenPc.of_not_holdsSlot hslot
  refine ⟨?_, ?_, fun c => ?_⟩
  · rw [h.slots, hslot, Bool.toNat_false, Nat.add_zero]
  · rw [h.wg, hcounts, Bool.toNat_false, Nat.add_zero]
  · rw [h.conns, hregistered]
    exact or_iff_right (by simp)

private theorem Counted.listenOn (h : Counted limit s) {t : ServerState}
    (haccepted : t.accepted = s.accepted) (hhandler : t.handler = s.handler)
    (hslots : t.slots = s.slots) (hwg : t.wg = s.wg) (hdone : t.listenDone = s.listenDone)
    (hconns : t.conns = s.conns) (hpc : s.listenPc ≠ .returned)
    (hslot : s.listenPc.holdsSlot = false) (hslot' : t.listenPc.holdsSlot = false)
    (hconn : ∀ c, t.listenPc.conn = some c → s.listenPc.conn = some c)
    (hleft : ∀ c, s.listenPc.conn = some c → t.listenPc.conn = some c ∨ t.closed c = true)
    (hclosed : ∀ c, s.closed c = true → t.closed c = true) : Counted limit t := by
  obtain ⟨hfew, hgroup, htracked⟩ := h.idleCounts hslot
  obtain ⟨hcounts, hregistered⟩ := ListenPc.of_not_holdsSlot hslot'
  refine h.listenTo haccepted hhandler ?_ ?_ ?_ ?_ hconn (fun c => ?_) hleft hclosed
  · rw [hslots, hfew, hslot', Bool.toNat_false, Nat.add_zero]
  · rw [hslots]
    exact h.slots_le
  · rw [hwg, hgroup, hcounts, hdone, Bool.toNat_false, Nat.add_zero]
  · rw [hdone, h.not_listenDone hpc]
    exact fun hfalse => absurd hfalse (by decide)
  · rw [hconns, htracked, hregistered]
    exact (or_iff_right (by simp)).symm

private theorem Counted.accept (h : Counted limit s) (hpc : s.listenPc = .accepting) :
    Counted limit { s with listenPc := .accepted s.accepted, accepted := s.accepted + 1 } := by
  have hidle := h.fresh s.accepted (Nat.le_refl _)
  obtain ⟨hslots, hwg, hconns⟩ := h.idleCounts (by rw [hpc]; rfl)
  have hnew : ∀ p : HandlerPc → Bool, p .idle = false →
      census (s.accepted + 1) (fun c => p (s.handler c)) =
        census s.accepted (fun c => p (s.handler c)) := fun p hp => by
    rw [census_succ, hidle, hp]
    rfl
  exact {
    slots := hslots.trans (hnew _ rfl).symm
    slots_le := h.slots_le
    wg := by
      rw [running, hnew _ rfl]
      exact hwg
    returned := fun hdone => by simp [h.not_listenDone (by simp [hpc])] at hdone
    pending := fun c hc => by
      cases hc
      exact ⟨Nat.lt_succ_self _, hidle⟩
    fresh := fun c hc => h.fresh c (Nat.le_of_succ_le hc)
    conns := fun c => by simpa [ListenPc.registered] using hconns c
    fate := fun c hc => by
      rcases Nat.lt_succ_iff_lt_or_eq.1 hc with hlt | heq
      · -- the loop had no connection when it called `Accept`
        have hnone : s.listenPc.conn ≠ some c := by rw [hpc]; simp [ListenPc.conn]
        exact .inr ((h.fate c hlt).resolve_left hnone)
      · exact .inl (congrArg some heq.symm) }

private theorem Counted.startHandler (h : Counted limit s) {c : Nat} (hpc : s.listenPc = .counted c) :
    Counted limit { s with
      listenPc := .accepting, handler := Function.update s.handler c .serving } := by
  obtain ⟨hlt, hidle⟩ := h.pending c (by rw [hpc]; rfl)
  have hholders := census_handler_update s HandlerPc.holdsSlot hlt .serving
  have hrunning := census_handler_update s HandlerPc.running hlt .serving
  rw [hidle] at hholders hrunning
  have hslots := h.slots
  have hwg := h.wg
  rw [hpc] at hslots hwg
  have hother : ∀ k, k ≠ c → Function.update s.handler c .serving k = s.handler k :=
    fun k hk => Function.update_of_ne hk ..
  exact {
    -- the slot that `startListen` had is now the goroutine's
    slots := hslots.trans hholders.symm
    slots_le := h.slots_le
    wg := hwg.trans (congrArg (· + (!s.listenDone).toNat) hrunning.symm)
    returned := fun hdone => by simp [h.not_listenDone (by simp [hpc])] at hdone
    pending := fun k hk => by simp [ListenPc.conn] at hk
    fresh := fun k hk => by
      have hne : k ≠ c := fun heq => absurd hlt (Nat.not_lt.2 (heq ▸ hk))
      exact (hother k hne).trans (h.fresh k hk)
    conns := fun k => by
      change s.conns k = true ↔ _ ∨ (Function.update s.handler c .serving k).tracked = true
      rw [h.conns, hpc]
      by_cases heq : k = c
      · simp [heq, HandlerPc.tracked, ListenPc.registered]
      · simp [hother k heq, Ne.symm heq, ListenPc.registered]
    fate := fun k hk => by
      change _ ∨ Function.update s.handler c .serving k = .serving ∨ _
      by_cases heq : k = c
      · rw [heq, Function.update_self]
        exact .inr (.inl rfl)
      · rw [hother k heq]
        have hnone : s.listenPc.conn ≠ some k := by
          rw [hpc]
          exact fun hsome => heq (Option.some.inj hsome).symm
        exact .inr ((h.fate k hk).resolve_left hnone) }

private theorem Counted.trackConn (h : Counted limit s) {c : Nat} (hpc : s.listenPc = .slotted c) :
    Counted limit
      { s with listenPc := .tracked c, conns := Function.update s.conns c true } := by
  have hslots := h.slots
  have hwg := h.wg
  rw [hpc] at hslots hwg
  refine h.listenTo rfl rfl hslots h.slots_le hwg (fun hdone => ?_) (fun k hk => ?_) (fun k => ?_)
    (fun k hk => ?_) (fun _ hk => hk)
  · simp [h.not_listenDone (by simp [hpc])] at hdone
  · rw [hpc]
    exact hk
  · change Function.update s.conns c true k = true ↔ _
    by_cases heq : k = c
    · simp [heq, ListenPc.registered]
    · rw [Function.update_of_ne heq, h.conns, hpc]
      simp [Ne.symm heq, ListenPc.registered]
  · rw [hpc] at hk
    exact .inl hk

private theorem Counted.wgAdd (h : Counted limit s) {c : Nat} (hpc : s.listenPc = .tracked c) :
    Counted limit { s with listenPc := .counted c, wg := s.wg + 1 } := by
  have hslots := h.slots
  have hwg := h.wg
  rw [hpc] at hslots hwg
  refine h.listenTo rfl rfl hslots h.slots_le ?_ (fun hdone => ?_) (fun k hk => ?_) (fun k => ?_)
    (fun k hk => ?_) (fun _ hk => hk)
  · change s.wg + 1 = s.running + 1 + (!s.listenDone).toNat
    rw [hwg]
    simp only [ListenPc.counts, Bool.toNat_false]
    omega
  · simp [h.not_listenDone (by simp [hpc])] at hdone
  · rw [hpc]
    exact hk
  · change s.conns k = true ↔ _
    rw [h.conns, hpc]
    rfl
  · rw [hpc] at hk
    exact .inl hk

private theorem Counted.reject (h : Counted limit s) {c : Nat} (hconn : s.listenPc.conn = some c)
    (hpc : s.listenPc ≠ .returned) (hslot : s.listenPc.holdsSlot = false) :
    Counted limit { s.closeConn c with listenPc := .accepting } := by
  refine h.listenOn rfl rfl rfl rfl rfl rfl hpc hslot rfl
    (fun k hk => by simp [ListenPc.conn] at hk) (fun k hk => ?_) (closed_closeConn s c)
  obtain rfl : c = k := Option.some.inj (hconn.symm.trans hk)
  exact .inr (Function.update_self ..)

private theorem Counted.listenStep (h : Counted limit s) (hstep : s.listenStep limit e = some t) :
    Counted limit t := by
  cases e with
  | listen ok =>
    simp only [ServerState.listenStep] at hstep
    split at hstep <;> cases hstep
    have hpc : s.listenPc = .starting := ‹_›
    refine h.listenOn rfl rfl rfl rfl rfl rfl (by simp [hpc]) (by rw [hpc]; rfl) ?_
      (fun c hc => ?_) (fun c hc => ?_) (fun _ hc => hc)
    · cases ok <;> rfl
    · cases ok <;> simp [ListenPc.conn] at hc
    · rw [hpc] at hc
      cases hc
  | setListener =>
    simp only [ServerState.listenStep] at hstep
    split at hstep <;> cases hstep
    have hpc : s.listenPc = .bound := ‹_›
    refine h.listenOn rfl rfl rfl rfl rfl rfl (by simp [hpc]) (by rw [hpc]; rfl) rfl
      (fun c hc => by simp [ListenPc.conn] at hc) (fun c hc => ?_) (fun _ hc => hc)
    rw [hpc] at hc
    cases hc
  | accept =>
    simp only [ServerState.listenStep] at hstep
    split at hstep <;> cases hstep
    exact h.accept (‹_ ∧ _› : _ ∧ _).1
  | acceptFails =>
    simp only [ServerState.listenStep] at hstep
    split at hstep <;> cases hstep
    have hpc : s.listenPc = .accepting := ‹_›
    refine h.listenOn rfl rfl rfl rfl rfl rfl (by simp [hpc]) (by rw [hpc]; rfl) rfl
      (fun c hc => by simp [ListenPc.conn] at hc) (fun c hc => ?_) (fun _ hc => hc)
    rw [hpc] at hc
    cases hc
  | testFlag =>
    simp only [ServerState.listenStep] at hstep
    split at hstep
    · rename_i c hpc
      split at hstep <;> cases hstep
      · exact h.reject (by rw [hpc]; rfl) (by simp [hpc]) (by rw [hpc]; rfl)
      · refine h.listenOn rfl rfl rfl rfl rfl rfl (by simp [hpc]) (by rw [hpc]; rfl) rfl
          (fun k hk => ?_) (fun k hk => ?_) (fun _ hk => hk)
        · rw [hpc]
          exact hk
        · rw [hpc] at hk
          exact .inl hk
    · contradiction
  | select =>
    simp only [ServerState.listenStep] at hstep
    split at hstep
    · rename_i c hpc
      split at hstep <;> cases hstep
      · -- the slot is taken only where one is free, so the limit holds
        have hfree : s.slots < limit := ‹_›
        obtain ⟨hslots, hwg, hconns⟩ := h.idleCounts (by rw [hpc]; rfl)
        refine h.listenTo rfl rfl (congrArg (· + 1) hslots) hfree hwg (fun hdone => ?_)
          (fun k hk => ?_) (fun k => ?_) (fun k hk => ?_) (fun _ hk => hk)
        · simp [h.not_listenDone (by simp [hpc])] at hdone
        · rw [hpc]
          exact hk
        · simpa [ListenPc.registered] using hconns k
        · rw [hpc] at hk
          exact .inl hk
      · exact h.reject (by rw [hpc]; rfl) (by simp [hpc]) (by rw [hpc]; rfl)
    · contradiction
  | trackConn =>
    simp only [ServerState.listenStep] at hstep
    split at hstep <;> cases hstep
    exact h.trackConn ‹_›
  | wgAdd =>
    simp only [ServerState.listenStep] at hstep
    split at hstep <;> cases hstep
    exact h.wgAdd ‹_›
  | startHandler =>
    simp only [ServerState.listenStep] at hstep
    split at hstep <;> cases hstep
    exact h.startHandler ‹_›
  | _ => contradiction

/-! ### The steps of the goroutines and of `shutdown` -/

private theorem Counted.handlerTo (h : Counted limit s) {c : Nat} (hbusy : s.handler c ≠ .idle)
    {pc : HandlerPc} {t : ServerState} (hhandler : t.handler = Function.update s.handler c pc)
    (haccepted : t.accepted = s.accepted) (hlisten : t.listenPc = s.listenPc)
    (hdone : t.listenDone = s.listenDone)
    (hslots : t.slots + (s.handler c).holdsSlot.toNat = s.slots + pc.holdsSlot.toNat)
    (hle : t.slots ≤ s.slots)
    (hwg : t.wg + (s.handler c).running.toNat = s.wg + pc.running.toNat)
    (hconns : ∀ k, k ≠ c → t.conns k = s.conns k) (hself : t.conns c = pc.tracked)
    (hclosed : ∀ k, s.closed k = true → t.closed k = true) (hend : t.closed c = true) :
    Counted limit t := by
  have hlt := h.lt_accepted hbusy
  have hholders : t.holders + (s.handler c).holdsSlot.toNat = s.holders + pc.holdsSlot.toNat := by
    rw [holders, haccepted, hhandler]
    exact census_handler_update s HandlerPc.holdsSlot hlt pc
  have hrunning : t.running + (s.handler c).running.toNat = s.running + pc.running.toNat := by
    rw [running, haccepted, hhandler]
    exact census_handler_update s HandlerPc.running hlt pc
  have hother : ∀ k, k ≠ c → t.handler k = s.handler k := fun k hk => by
    rw [hhandler, Function.update_of_ne hk]
  have hidle : ∀ k, s.handler k = .idle → t.handler k = .idle := fun k hk => by
    rw [hother k (fun heq => hbusy (heq ▸ hk)), hk]
  exact {
    slots := by
      have hbefore := h.slots
      rw [hlisten]
      omega
    slots_le := Nat.le_trans hle h.slots_le
    wg := by
      have hbefore := h.wg
      rw [hlisten, hdone]
      omega
    returned := by
      rw [hdone, hlisten]
      exact h.returned
    pending := fun k hk => by
      obtain ⟨hk', hpending⟩ := h.pending k (hlisten ▸ hk)
      exact ⟨haccepted ▸ hk', hidle k hpending⟩
    fresh := fun k hk => hidle k (h.fresh k (haccepted ▸ hk))
    conns := fun k => by
      rw [hlisten]
      by_cases heq : k = c
      · -- a connection with a goroutine is not the one `startListen` has
        rw [heq, hself, hhandler, Function.update_self]
        exact (or_iff_right (h.not_registered hbusy)).symm
      · rw [hconns k heq, hother k heq]
        exact h.conns k
    fate := fun k hk => by
      rw [hlisten]
      by_cases heq : k = c
      · rw [heq]
        exact .inr (.inr hend)
      · rw [hother k heq]
        exact (h.fate k (haccepted ▸ hk)).imp_right (.imp_right (hclosed k)) }

private theorem Counted.closed_of_ended (h : Counted limit s) {c : Nat} (hbusy : s.handler c ≠ .idle)
    (hserving : s.handler c ≠ .serving) : s.closed c = true := by
  rcases h.fate c (h.lt_accepted hbusy) with hpending | hserves | hend
  · exact absurd (h.pending c hpending).2 hbusy
  · exact absurd hserves hserving
  · exact hend

private theorem Counted.handlers_pos (h : Counted limit s) {p : HandlerPc → Bool} (hidle : p .idle = false)
    {c : Nat} (hc : p (s.handler c) = true) : 0 < census s.accepted fun k => p (s.handler k) := by
  refine census_pos (h.lt_accepted fun heq => ?_) hc
  rw [heq, hidle] at hc
  cases hc

private theorem Counted.slots_pos (h : Counted limit s) {c : Nat} (hpc : s.handler c = .untracked) :
    0 < s.slots := by
  have hpos : 0 < s.holders := h.handlers_pos rfl (c := c) (by rw [hpc]; rfl)
  have hslots := h.slots
  omega

private theorem Counted.wg_pos (h : Counted limit s) {c : Nat} (hpc : s.handler c = .released) :
    0 < s.wg := by
  have hpos : 0 < s.running := h.handlers_pos rfl (c := c) (by rw [hpc]; rfl)
  have hwg := h.wg
  omega

private theorem Counted.wg_pos_of_not_listenDone (h : Counted limit s) (hdone : s.listenDone = false) :
    0 < s.wg := by
  have hwg := h.wg
  rw [hdone, Bool.not_false, Bool.toNat_true] at hwg
  omega

private theorem Counted.conns_eq (h : Counted limit s) {c : Nat} (hbusy : s.handler c ≠ .idle) :
    s.conns c = (s.handler c).tracked := by
  rw [Bool.eq_iff_iff, h.conns]
  exact or_iff_right (h.not_registered hbusy)

private theorem Counted.handlerStep (h : Counted limit s) (hstep : s.handlerStep e = some t) :
    Counted limit t := by
  cases e with
  | handlerReturns c =>
    simp only [ServerState.handlerStep] at hstep
    split at hstep <;> cases hstep
    have hpc : s.handler c = .serving := ‹_›
    have hbusy : s.handler c ≠ .idle := by simp [hpc]
    have hconns := h.conns_eq hbusy
    rw [hpc] at hconns
    exact h.handlerTo hbusy rfl rfl rfl rfl (by rw [hpc]; rfl) (Nat.le_refl _) (by rw [hpc]; rfl)
      (fun _ _ => rfl) hconns (closed_closeConn s c) (Function.update_self ..)
  | untrackConn c =>
    simp only [ServerState.handlerStep] at hstep
    split at hstep <;> cases hstep
    have hpc : s.handler c = .closed := ‹_›
    have hbusy : s.handler c ≠ .idle := by simp [hpc]
    exact h.handlerTo hbusy rfl rfl rfl rfl (by rw [hpc]; rfl) (Nat.le_refl _) (by rw [hpc]; rfl)
      (fun _ hk => Function.update_of_ne hk ..) (Function.update_self ..) (fun _ hk => hk)
      (h.closed_of_ended hbusy (by simp [hpc]))
  | releaseSlot c =>
    simp only [ServerState.handlerStep] at hstep
    split at hstep <;> cases hstep
    have hpc : s.handler c = .untracked := ‹_›
    have hbusy : s.handler c ≠ .idle := by simp [hpc]
    have hconns := h.conns_eq hbusy
    rw [hpc] at hconns
    have hpos := h.slots_pos hpc
    refine h.handlerTo hbusy rfl rfl rfl rfl ?_ (Nat.sub_le _ _) (by rw [hpc]; rfl)
      (fun _ _ => rfl) hconns (fun _ hk => hk) (h.closed_of_ended hbusy (by simp [hpc]))
    rw [hpc]
    exact Nat.sub_add_cancel hpos
  | wgDone c =>
    simp only [ServerState.handlerStep] at hstep
    split at hstep <;> cases hstep
    have hpc : s.handler c = .released := ‹_›
    have hbusy : s.handler c ≠ .idle := by simp [hpc]
    have hconns := h.conns_eq hbusy
    rw [hpc] at hconns
    have hpos := h.wg_pos hpc
    refine h.handlerTo hbusy rfl rfl rfl rfl (by rw [hpc]; rfl) (Nat.le_refl _) ?_
      (fun _ _ => rfl) hconns (fun _ hk => hk) (h.closed_of_ended hbusy (by simp [hpc]))
    rw [hpc]
    exact Nat.sub_add_cancel hpos
  | listenDone =>
    simp only [ServerState.handlerStep] at hstep
    split at hstep <;> cases hstep
    obtain ⟨hpc, hdone⟩ : s.listenPc = .returned ∧ s.listenDone = false := ‹_›
    have hwg := h.wg
    rw [hpc, hdone] at hwg
    refine h.listenTo rfl rfl h.slots h.slots_le ?_ (fun _ => hpc) (fun _ hk => hk) h.conns
      (fun _ hk => .inl hk) (fun _ hk => hk)
    change s.wg - 1 = s.running + s.listenPc.counts.toNat + 0
    rw [hwg, hpc]
    rfl
  | _ => contradiction

private theorem shutdownStep_frame (hstep : s.shutdownStep e = some t) :
    t.slots = s.slots ∧ t.wg = s.wg ∧ t.accepted = s.accepted ∧ t.listenPc = s.listenPc ∧
      t.listenDone = s.listenDone ∧ t.handler = s.handler ∧ t.conns = s.conns ∧
      ∀ c, s.closed c = true → t.closed c = true := by
  cases e <;> simp only [ServerState.shutdownStep] at hstep <;>
    (try split at hstep) <;> cases hstep <;>
    refine ⟨rfl, rfl, rfl, rfl, rfl, rfl, rfl, fun c hc => ?_⟩ <;> simp [hc]

private theorem Counted.shutdownStep (h : Counted limit s) (hstep : s.shutdownStep e = some t) :
    Counted limit t := by
  obtain ⟨hslots, hwg, haccepted, hlisten, hdone, hhandler, hconns, hclosed⟩ :=
    shutdownStep_frame hstep
  refine h.listenTo haccepted hhandler ?_ ?_ ?_ ?_ (fun c hc => ?_) (fun c => ?_)
    (fun c hc => ?_) hclosed
  · rw [hslots, hlisten]
    exact h.slots
  · rw [hslots]
    exact h.slots_le
  · rw [hwg, hlisten, hdone]
    exact h.wg
  · rw [hdone, hlisten]
    exact h.returned
  · rw [hlisten] at hc
    exact hc
  · rw [hconns, hlisten]
    exact h.conns c
  · rw [hlisten]
    exact .inl hc

private theorem Counted.step (h : Counted limit s) (hstep : s.step limit e = some t) :
    Counted limit t := by
  rcases step_cases hstep with ⟨-, hlisten⟩ | ⟨-, hhandler⟩ | ⟨-, hshutdown⟩
  · exact h.listenStep hlisten
  · exact h.handlerStep hhandler
  · exact h.shutdownStep hshutdown

private theorem Counted.run {es : List ServerEvent} (hrun : exec (ServerState.step limit) init es = some s) :
    Counted limit s :=
  exec_invariant (fun _ _ _ h hstep => h.step hstep) (counted_init limit) hrun

/-! ### What a drained wait group means -/

private theorem Counted.not_running (h : Counted limit s) (hnone : s.running = 0) (c : Nat) :
    (s.handler c).running = false := by
  by_contra hrunning
  have hpos : 0 < s.running := h.handlers_pos rfl (by simpa using hrunning)
  omega

private theorem Counted.holders_eq_zero (h : Counted limit s) (hnone : s.running = 0) :
    s.holders = 0 :=
  census_eq_zero fun c _ => (HandlerPc.of_not_running (h.not_running hnone c)).1

private theorem Counted.drained (h : Counted limit s) (hwg : s.wg = 0) :
    s.listenDone = true ∧ s.listenPc = .returned ∧ s.slots = 0 ∧ (∀ c, s.conns c = false) ∧
      ∀ c < s.accepted, s.closed c = true := by
  have hsum := h.wg
  rw [hwg] at hsum
  have hnone : s.running = 0 := by omega
  have hdone : s.listenDone = true := by
    by_contra hnot
    have hpos := h.wg_pos_of_not_listenDone (by simpa using hnot)
    omega
  have hpc := h.returned hdone
  refine ⟨hdone, hpc, ?_, fun c => ?_, fun c hc => ?_⟩
  · rw [h.slots, h.holders_eq_zero hnone, hpc]
    rfl
  · by_contra htracked
    rcases (h.conns c).1 (by simpa using htracked) with hat | hgoroutine
    · rw [hpc] at hat
      cases hat
    · rw [(HandlerPc.of_not_running (h.not_running hnone c)).2.1] at hgoroutine
      cases hgoroutine
  · rcases h.fate c hc with hpending | hserving | hend
    · rw [hpc] at hpending
      cases hpending
    · exact absurd hserving (HandlerPc.of_not_running (h.not_running hnone c)).2.2
    · exact hend

/-- In every interleaving of the accept loop, the goroutines of the connections and `shutdown`, the
slots in use are those the goroutines have not given back and the one `startListen` is about to
pass on, never more than the limit; the wait group counts the goroutines that have not ended, the
one about to be started and the one of `Run`. So no receive from `connSem` blocks in a deferred
call, and no `Done` finds the counter at zero. Every accepted connection is at `startListen`, is
served or is closed, and once the wait group is at zero all are closed, the slots are free and no
connection is tracked. -/
theorem connection_slots_account (maxConnections : Int) (events : List ServerEvent)
    (s : ServerState) (hrun : exec (step (maxConns maxConnections)) init events = some s) :
    s.slots = s.holders + s.listenPc.holdsSlot.toNat ∧ s.slots ≤ maxConns maxConnections ∧
      s.wg = s.running + s.listenPc.counts.toNat + (!s.listenDone).toNat ∧
      (∀ c, s.handler c = .untracked → 0 < s.slots) ∧
      (∀ c, s.handler c = .released → 0 < s.wg) ∧ (s.listenDone = false → 0 < s.wg) ∧
      (∀ c < s.accepted,
        s.listenPc.conn = some c ∨ s.handler c = .serving ∨ s.closed c = true) ∧
      (s.wg = 0 → s.listenDone = true ∧ s.listenPc = .returned ∧ s.slots = 0 ∧
        (∀ c, s.conns c = false) ∧ ∀ c < s.accepted, s.closed c = true) := by
  have h := Counted.run hrun
  exact ⟨h.slots, h.slots_le, h.wg, fun _ => h.slots_pos, fun _ => h.wg_pos,
    h.wg_pos_of_not_listenDone, h.fate, h.drained⟩

/-- With one slot, a second client is served while the goroutine of the first has given its slot
back and not left the wait group, and a third client is rejected. -/
def overlappingClients : List ServerEvent :=
  [.listen true, .setListener, .accept, .testFlag, .select, .trackConn, .wgAdd, .startHandler,
    .handlerReturns 0, .untrackConn 0, .releaseSlot 0,
    .accept, .testFlag, .select, .trackConn, .wgAdd, .startHandler, .accept, .testFlag, .select]

def drainedClients : List ServerEvent :=
  overlappingClients ++
    [.storeFlag, .closeListener, .acceptFails, .closeConns, .listenDone, .handlerReturns 1,
      .wgDone 0, .untrackConn 1, .releaseSlot 1, .wgDone 1, .wait true]

theorem connection_slots_account_overlapping_clients :
    (∃ s, exec (step (maxConns 1)) init overlappingClients = some s ∧ s.running = 2 ∧
      s.slots = 1 ∧ s.wg = 3 ∧ s.slots ≤ maxConns 1) ∧
    ∃ s, exec (step (maxConns 1)) init drainedClients = some s ∧ s.accepted = 3 ∧ s.wg = 0 ∧
      ∀ c < s.accepted, s.closed c = true := by
  have hoverlap := connection_slots_account 1 overlappingClients _ rfl
  have hdrained := connection_slots_account 1 drainedClients _ rfl
  exact ⟨⟨_, rfl, rfl, rfl, rfl, hoverlap.2.1⟩,
    _, rfl, rfl, rfl, (hdrained.2.2.2.2.2.2.2 rfl).2.2.2.2⟩

end ServerState

end PinpointAgent.Server
