import PinpointAgent.Framework.Interleaving
import Mathlib.Tactic.Common
/-!
# Shutting the server down

Three kinds of goroutines meet here. `startListen` binds the listener and admits connections,
one handler goroutine per admitted connection runs `handleClient`, and `shutdown` sets
`shuttingDown`, closes the listener, closes every tracked connection, waits a bounded time
and stops the router. The steps below are the atomic operations of each: loads and stores of
the flag, the sections under `listenerMu` and `connMu`, `Accept`, the calls of the wait group and
each deferred call of a goroutine.
-/

namespace PinpointAgent.Server

open Framework

/-- Where `startListen` stands. -/
inductive ListenPc where
  | starting
  /-- `net.Listen` returned; the listener is not stored yet. -/
  | bound
  | accepting
  | accepted (conn : Nat)
  /-- `shuttingDown` was loaded and not set. -/
  | admitted (conn : Nat)
  /-- A slot of `connSem` is taken. -/
  | slotted (conn : Nat)
  | tracked (conn : Nat)
  /-- `s.wg.Add(1)` was called for the goroutine of the connection. -/
  | counted (conn : Nat)
  | returned
  /-- `net.Listen` failed, which ends the process. -/
  | panicked
deriving DecidableEq

inductive HandlerPc where
  | idle
  | serving
  /-- `handleClient` returned, its deferred `con.Close` included. -/
  | closed
  | untracked
  /-- The slot of `connSem` is given back; `s.wg.Done()` is still to come. -/
  | released
  | done
deriving DecidableEq

/-- What `shutdown` has done last. -/
inductive ShutdownPc where
  | serving
  | flagged
  | listenerClosed
  | connsClosed
  | waited
  | routerStopped
deriving DecidableEq

def ShutdownPc.stage : ShutdownPc → Nat
  | .serving => 0
  | .flagged => 1
  | .listenerClosed => 2
  | .connsClosed => 3
  | .waited => 4
  | .routerStopped => 5

/-- The connection `startListen` is working on. -/
def ListenPc.conn : ListenPc → Option Nat
  | .accepted c | .admitted c | .slotted c | .tracked c | .counted c => some c
  | _ => none

/-- The connection that `startListen` has put into `conns` and not yet handed to a goroutine. -/
def ListenPc.registered : ListenPc → Option Nat
  | .tracked c | .counted c => some c
  | _ => none

theorem ListenPc.conn_of_registered {pc : ListenPc} {c : Nat} (h : pc.registered = some c) :
    pc.conn = some c := by
  cases pc <;> first | exact h | cases h

/-- `startListen` has found the flag not set and has not registered the connection yet. -/
def ListenPc.unregistered : ListenPc → Bool
  | .admitted _ | .slotted _ => true
  | _ => false

/-- The number of steps `startListen` still takes once the listener is closed. -/
def ListenPc.remaining : ListenPc → Nat
  | .returned | .panicked => 0
  | .accepting => 1
  | .accepted _ | .counted _ => 2
  | .tracked _ => 3
  | .slotted _ => 4
  | .admitted _ => 5
  | .bound => 6
  | .starting => 7

/-- The server as its goroutines see it. Connections are numbered as they are accepted. -/
structure ServerState where
  /-- The socket behind the listener is open. -/
  listenerOpen : Bool
  /-- `s.listener != nil` -/
  listener : Bool
  shuttingDown : Bool
  /-- The connections of the map `conns`. -/
  conns : Nat → Bool
  /-- Connections the server has closed. -/
  closed : Nat → Bool
  accepted : Nat
  /-- Slots of `connSem` in use. -/
  slots : Nat
  /-- The counter of the wait group. -/
  wg : Nat
  listenPc : ListenPc
  /-- The goroutine of `Run` has made the `s.wg.Done()` it deferred. -/
  listenDone : Bool
  handler : Nat → HandlerPc
  shutdownPc : ShutdownPc

inductive ServerEvent where
  | listen (ok : Bool)
  | setListener
  | accept
  | acceptFails
  | testFlag
  | select
  | trackConn
  | wgAdd
  | startHandler
  | handlerReturns (conn : Nat)
  | untrackConn (conn : Nat)
  | releaseSlot (conn : Nat)
  | wgDone (conn : Nat)
  /-- The `s.wg.Done()` that `Run` defers around `startListen`. -/
  | listenDone
  | storeFlag
  | closeListener
  | closeConns
  /-- The bounded wait ends, because all handlers are done or by its timeout. -/
  | wait (drained : Bool)
  | stopRouter
deriving DecidableEq

def defaultMaxConnections : Nat := 1000

/-- The capacity of `connSem`. -/
def maxConns (maxConnections : Int) : Nat :=
  if maxConnections ≤ 0 then defaultMaxConnections else maxConnections.toNat

namespace ServerState

/-- `Run` has started the goroutine of `startListen`. -/
def init : ServerState where
  listenerOpen := false
  listener := false
  shuttingDown := false
  conns := fun _ => false
  closed := fun _ => false
  accepted := 0
  slots := 0
  wg := 1
  listenPc := .starting
  listenDone := false
  handler := fun _ => .idle
  shutdownPc := .serving

def closeConn (s : ServerState) (c : Nat) : ServerState :=
  { s with closed := Function.update s.closed c true }

def listenStep (limit : Nat) (s : ServerState) : ServerEvent → Option ServerState
  | .listen ok =>
    if s.listenPc = .starting then
      some { s with listenPc := if ok then .bound else .panicked, listenerOpen := ok }
    else none
  | .setListener =>
    if s.listenPc = .bound then some { s with listenPc := .accepting, listener := true } else none
  | .accept =>
    if s.listenPc = .accepting ∧ s.listenerOpen then
      some { s with listenPc := .accepted s.accepted, accepted := s.accepted + 1 }
    else none
  | .acceptFails =>
    if s.listenPc = .accepting then some { s with listenPc := .returned } else none
  | .testFlag =>
    match s.listenPc with
    | .accepted c =>
      if s.shuttingDown then some { s.closeConn c with listenPc := .accepting }
      else some { s with listenPc := .admitted c }
    | _ => none
  | .select =>
    match s.listenPc with
    | .admitted c =>
      if s.slots < limit then some { s with listenPc := .slotted c, slots := s.slots + 1 }
      else some { s.closeConn c with listenPc := .accepting }
    | _ => none
  | .trackConn =>
    match s.listenPc with
    | .slotted c =>
      some { s with listenPc := .tracked c, conns := Function.update s.conns c true }
    | _ => none
  | .wgAdd =>
    match s.listenPc with
    | .tracked c => some { s with listenPc := .counted c, wg := s.wg + 1 }
    | _ => none
  | .startHandler =>
    match s.listenPc with
    | .counted c =>
      some { s with listenPc := .accepting, handler := Function.update s.handler c .serving }
    | _ => none
  | _ => none

/-- `handleClient` and the deferred calls of the goroutines, the last one deferred first. -/
def handlerStep (s : ServerState) : ServerEvent → Option ServerState
  | .handlerReturns c =>
    if s.handler c = .serving then
      some { s.closeConn c with handler := Function.update s.handler c .closed }
    else none
  | .untrackConn c =>
    if s.handler c = .closed then
      some { s with
        conns := Function.update s.conns c false, handler := Function.update s.handler c .untracked }
    else none
  | .releaseSlot c =>
    if s.handler c = .untracked then
      some { s with slots := s.slots - 1, handler := Function.update s.handler c .released }
    else none
  | .wgDone c =>
    if s.handler c = .released then
      some { s with wg := s.wg - 1, handler := Function.update s.handler c .done }
    else none
  | .listenDone =>
    if s.listenPc = .returned ∧ s.listenDone = false then
      some { s with wg := s.wg - 1, listenDone := true }
    else none
  | _ => none

def shutdownStep (s : ServerState) : ServerEvent → Option ServerState
  | .storeFlag =>
    if s.shutdownPc = .serving then some { s with shutdownPc := .flagged, shuttingDown := true }
    else none
  | .closeListener =>
    if s.shutdownPc = .flagged then
      some { s with
        shutdownPc := .listenerClosed, listenerOpen := s.listenerOpen && !s.listener }
    else none
  | .closeConns =>
    if s.shutdownPc = .listenerClosed then
      some { s with shutdownPc := .connsClosed, closed := fun c => s.closed c || s.conns c }
    else none
  | .wait drained =>
    if s.shutdownPc = .connsClosed ∧ (drained → s.wg = 0) then
      some { s with shutdownPc := .waited }
    else none
  | .stopRouter =>
    if s.shutdownPc = .waited then some { s with shutdownPc := .routerStopped } else none
  | _ => none

end ServerState

def ServerEvent.ofListen : ServerEvent → Bool
  | .listen _ | .setListener | .accept | .acceptFails | .testFlag | .select | .trackConn
  | .wgAdd | .startHandler => true
  | _ => false

def ServerEvent.ofHandler : ServerEvent → Bool
  | .handlerReturns _ | .untrackConn _ | .releaseSlot _ | .wgDone _ | .listenDone => true
  | _ => false

namespace ServerState

/-- One step of one goroutine of the server; a panic has ended all of them. -/
def step (limit : Nat) (s : ServerState) (e : ServerEvent) : Option ServerState :=
  if s.listenPc = .panicked then none
  else if e.ofListen then s.listenStep limit e
  else if e.ofHandler then s.handlerStep e
  else s.shutdownStep e

/-- `shutdown` looks for the listener when it is stored, and closes the tracked connections
while `startListen` is not about to register one that it admitted before the flag was set. -/
def Ordered (s : ServerState) (e : ServerEvent) : Prop :=
  (e = .closeListener → s.listener = true) ∧
    (e = .closeConns → s.listenPc.unregistered = false)

instance decidableOrdered (s : ServerState) (e : ServerEvent) : Decidable (s.Ordered e) :=
  inferInstanceAs (Decidable (_ ∧ _))

structure Orderly (s : ServerState) : Prop where
  flag : 1 ≤ s.shutdownPc.stage → s.shuttingDown = true
  /-- A stored listener is what the accept loop runs on. -/
  stored : s.listener = true →
    s.listenPc ≠ .starting ∧ s.listenPc ≠ .bound ∧ s.listenPc ≠ .panicked
  closedListener : 2 ≤ s.shutdownPc.stage → s.listener = true ∧ s.listenerOpen = false
  /-- Connections have no handler before `startListen` starts it. -/
  pending : ∀ c, s.listenPc.conn = some c → c < s.accepted ∧ s.handler c = .idle
  fresh : ∀ c, s.accepted ≤ c → s.handler c = .idle
  tracked : ∀ c, s.listenPc.registered = some c → s.conns c = true
  serving : ∀ c, s.handler c = .serving → s.conns c = true
  ended : ∀ c, s.handler c ≠ .idle → s.handler c ≠ .serving → s.closed c = true
  swept : 3 ≤ s.shutdownPc.stage →
    (∀ c, s.conns c = true → s.closed c = true) ∧ s.listenPc.unregistered = false

private theorem orderly_init : init.Orderly where
  flag h := by simp [init, ShutdownPc.stage] at h
  stored h := by simp [init] at h
  closedListener h := by simp [init, ShutdownPc.stage] at h
  pending c h := by simp [init, ListenPc.conn] at h
  fresh c h := rfl
  tracked c h := by simp [init, ListenPc.registered] at h
  serving c h := by simp [init] at h
  ended c h := by simp [init] at h
  swept h := by simp [init, ShutdownPc.stage] at h

variable {s t : ServerState} {e : ServerEvent} {limit : Nat}

theorem step_cases (hstep : s.step limit e = some t) :
    (e.ofListen = true ∧ s.listenStep limit e = some t) ∨
    (e.ofListen = false ∧ s.handlerStep e = some t) ∨
    (e.ofListen = false ∧ s.shutdownStep e = some t) := by
  simp only [ServerState.step] at hstep
  split at hstep
  · contradiction
  · split at hstep
    · exact .inl ⟨‹_›, hstep⟩
    · split at hstep
      · exact .inr (.inl ⟨Bool.not_eq_true _ ▸ ‹_›, hstep⟩)
      · exact .inr (.inr ⟨Bool.not_eq_true _ ▸ ‹_›, hstep⟩)

/-! ### The invariant -/

private theorem Orderly.bound (h : s.Orderly) (hpc : s.listenPc = .starting) (ok : Bool) :
    { s with listenPc := if ok then .bound else .panicked, listenerOpen := ok }.Orderly := by
  have hlistener : s.listener ≠ true := fun hl => (h.stored hl).1 hpc
  have hstage : ¬ 2 ≤ s.shutdownPc.stage := fun hs => hlistener (h.closedListener hs).1
  exact {
    flag := h.flag
    stored := fun hl => absurd hl hlistener
    closedListener := fun hs => absurd hs hstage
    pending := fun c hc => by cases ok <;> simp [ListenPc.conn] at hc
    fresh := h.fresh
    tracked := fun c hc => by cases ok <;> simp [ListenPc.registered] at hc
    serving := h.serving
    ended := h.ended
    swept := fun hs => absurd (Nat.le_of_succ_le hs) hstage }

private theorem Orderly.setListener (h : s.Orderly) (hpc : s.listenPc = .bound) :
    { s with listenPc := .accepting, listener := true }.Orderly := by
  have hlistener : s.listener ≠ true := fun hl => (h.stored hl).2.1 hpc
  have hstage : ¬ 2 ≤ s.shutdownPc.stage := fun hs => hlistener (h.closedListener hs).1
  exact {
    flag := h.flag
    stored := fun _ => by simp
    closedListener := fun hs => absurd hs hstage
    pending := fun c hc => by simp [ListenPc.conn] at hc
    fresh := h.fresh
    tracked := fun c hc => by simp [ListenPc.registered] at hc
    serving := h.serving
    ended := h.ended
    swept := fun hs => absurd (Nat.le_of_succ_le hs) hstage }

private theorem Orderly.accept (h : s.Orderly) :
    { s with listenPc := .accepted s.accepted, accepted := s.accepted + 1 }.Orderly where
  flag := h.flag
  stored := fun _ => by simp
  closedListener := h.closedListener
  pending := fun c hc => by
    cases hc
    exact ⟨Nat.lt_succ_self _, h.fresh _ (Nat.le_refl _)⟩
  fresh := fun c hc => h.fresh c (Nat.le_of_succ_le hc)
  tracked := fun c hc => by simp [ListenPc.registered] at hc
  serving := h.serving
  ended := h.ended
  swept := fun hs => ⟨(h.swept hs).1, rfl⟩

theorem Orderly.loop (h : s.Orderly) {pc : ListenPc} (hpc : pc = .accepting ∨ pc = .returned)
    {closed : Nat → Bool} (hclosed : ∀ c, s.closed c = true → closed c = true) :
    { s with listenPc := pc, closed }.Orderly where
  flag := h.flag
  stored := fun _ => by rcases hpc with rfl | rfl <;> simp
  closedListener := h.closedListener
  pending := fun c hc => by rcases hpc with rfl | rfl <;> simp [ListenPc.conn] at hc
  fresh := h.fresh
  tracked := fun c hc => by rcases hpc with rfl | rfl <;> simp [ListenPc.registered] at hc
  serving := h.serving
  ended := fun c hc hs => hclosed c (h.ended c hc hs)
  swept := fun hs =>
    ⟨fun c hc => hclosed c ((h.swept hs).1 c hc), by rcases hpc with rfl | rfl <;> rfl⟩

private theorem Orderly.admit (h : s.Orderly) {c : Nat} (hconn : s.listenPc.conn = some c)
    (hstage : s.shutdownPc.stage < 3) {pc : ListenPc} (hpc : pc = .admitted c ∨ pc = .slotted c)
    (slots : Nat) : { s with listenPc := pc, slots }.Orderly where
  flag := h.flag
  stored := fun _ => by rcases hpc with rfl | rfl <;> simp
  closedListener := h.closedListener
  pending := fun c' hc => by
    have heq : c = c' := by rcases hpc with rfl | rfl <;> exact Option.some.inj hc
    exact heq ▸ h.pending c hconn
  fresh := h.fresh
  tracked := fun c hc => by rcases hpc with rfl | rfl <;> simp [ListenPc.registered] at hc
  serving := h.serving
  ended := h.ended
  swept := fun hs => absurd hs (by simpa using hstage)

private theorem Orderly.trackConn (h : s.Orderly) {c : Nat} (hpc : s.listenPc = .slotted c) :
    { s with listenPc := .tracked c, conns := Function.update s.conns c true }.Orderly := by
  have hkeep : ∀ c', s.conns c' = true → Function.update s.conns c true c' = true := by
    intro c' hc
    by_cases heq : c' = c
    · rw [heq, Function.update_self]
    · rwa [Function.update_of_ne heq]
  exact {
    flag := h.flag
    stored := fun _ => by simp
    closedListener := h.closedListener
    pending := fun c' hc => h.pending c' (by rw [hpc]; exact hc)
    fresh := h.fresh
    tracked := fun c' hc => by
      obtain rfl : c = c' := Option.some.inj hc
      exact Function.update_self ..
    serving := fun c' hc => hkeep c' (h.serving c' hc)
    ended := h.ended
    swept := fun hs => by
      have hregistered := (h.swept hs).2
      simp [hpc, ListenPc.unregistered] at hregistered }

private theorem Orderly.wgAdd (h : s.Orderly) {c : Nat} (hpc : s.listenPc = .tracked c) (wg : Nat) :
    { s with listenPc := .counted c, wg }.Orderly where
  flag := h.flag
  stored := fun _ => by simp
  closedListener := h.closedListener
  pending := fun c' hc => h.pending c' (by rw [hpc]; exact hc)
  fresh := h.fresh
  tracked := fun c' hc => h.tracked c' (by rw [hpc]; exact hc)
  serving := h.serving
  ended := h.ended
  swept := fun hs => ⟨(h.swept hs).1, rfl⟩

private theorem Orderly.startHandler (h : s.Orderly) {c : Nat} (hpc : s.listenPc = .counted c) :
    { s with
      listenPc := .accepting, handler := Function.update s.handler c .serving }.Orderly := by
  obtain ⟨hlt, hidle⟩ := h.pending c (by rw [hpc]; rfl)
  have hother : ∀ c', c' ≠ c → Function.update s.handler c .serving c' = s.handler c' :=
    fun c' hne => Function.update_of_ne hne ..
  exact {
    flag := h.flag
    stored := fun _ => by simp
    closedListener := h.closedListener
    pending := fun c' hc => by simp [ListenPc.conn] at hc
    fresh := fun c' hc => by
      change s.accepted ≤ c' at hc
      change Function.update s.handler c .serving c' = _
      rw [hother c' (by omega)]
      exact h.fresh c' hc
    tracked := fun c' hc => by simp [ListenPc.registered] at hc
    serving := fun c' hc => by
      by_cases heq : c' = c
      · rw [heq]
        exact h.tracked c (by rw [hpc]; rfl)
      · exact h.serving c' (hother c' heq ▸ hc)
    ended := fun c' hc hs => by
      by_cases heq : c' = c
      · exact absurd (by rw [heq]; exact Function.update_self ..) hs
      · exact h.ended c' (hother c' heq ▸ hc) (hother c' heq ▸ hs)
    swept := fun hs => ⟨(h.swept hs).1, rfl⟩ }

theorem closed_closeConn (s : ServerState) (c c' : Nat) (h : s.closed c' = true) :
    (s.closeConn c).closed c' = true := by
  by_cases heq : c' = c
  · rw [heq]
    exact Function.update_self ..
  · exact (Function.update_of_ne heq ..).trans h

private theorem Orderly.listenStep (h : s.Orderly) (hstep : s.listenStep limit e = some t) :
    t.Orderly := by
  cases e with
  | listen ok =>
    simp only [ServerState.listenStep] at hstep
    split at hstep <;> cases hstep
    exact h.bound ‹_› ok
  | setListener =>
    simp only [ServerState.listenStep] at hstep
    split at hstep <;> cases hstep
    exact h.setListener ‹_›
  | accept =>
    simp only [ServerState.listenStep] at hstep
    split at hstep <;> cases hstep
    exact h.accept
  | acceptFails =>
    simp only [ServerState.listenStep] at hstep
    split at hstep <;> cases hstep
    exact h.loop (.inr rfl) (fun _ hc => hc)
  | testFlag =>
    simp only [ServerState.listenStep] at hstep
    split at hstep
    · rename_i c hpc
      split at hstep <;> cases hstep
      · exact h.loop (.inl rfl) (closed_closeConn s c)
      · -- the flag is not set, so `shutdown` has not begun
        have hstage : s.shutdownPc.stage < 3 := by
          by_contra hlate
          exact absurd (h.flag (by omega)) ‹_›
        exact h.admit (by rw [hpc]; rfl) hstage (.inl rfl) s.slots
    · contradiction
  | select =>
    simp only [ServerState.listenStep] at hstep
    split at hstep
    · rename_i c hpc
      have hstage : s.shutdownPc.stage < 3 := by
        by_contra hlate
        have hregistered := (h.swept (by omega)).2
        simp [hpc, ListenPc.unregistered] at hregistered
      split at hstep <;> cases hstep
      · exact h.admit (by rw [hpc]; rfl) hstage (.inr rfl) _
      · exact h.loop (.inl rfl) (closed_closeConn s c)
    · contradiction
  | trackConn =>
    simp only [ServerState.listenStep] at hstep
    split at hstep <;> cases hstep
    exact h.trackConn ‹_›
  | wgAdd =>
    simp only [ServerState.listenStep] at hstep
    split at hstep <;> cases hstep
    exact h.wgAdd ‹_› _
  | startHandler =>
    simp only [ServerState.listenStep] at hstep
    split at hstep <;> cases hstep
    exact h.startHandler ‹_›
  | _ => contradiction

/-- The handler of a closed connection goes on to one of its deferred calls. The connection that
`startListen` holds has no handler yet, so it is another one. -/
theorem Orderly.handlerEnds (h : s.Orderly) {c : Nat} (hbusy : s.handler c ≠ .idle)
    {pc : HandlerPc} (hserving : pc ≠ .serving) {conns closed : Nat → Bool}
    (hconns : ∀ c', c' ≠ c → conns c' = s.conns c') (hself : closed c = true)
    (hclosed : ∀ c', s.closed c' = true → closed c' = true) (slots wg : Nat) :
    { s with handler := Function.update s.handler c pc, conns, closed, slots, wg }.Orderly := by
  have hother : ∀ c', s.handler c' = .idle → c' ≠ c := fun c' hc' heq => hbusy (heq ▸ hc')
  have hkeep : ∀ c', c' ≠ c → Function.update s.handler c pc c' = s.handler c' :=
    fun c' hne => Function.update_of_ne hne ..
  exact {
    flag := h.flag
    stored := h.stored
    closedListener := h.closedListener
    pending := fun c' hc => by
      obtain ⟨hlt, hc'⟩ := h.pending c' hc
      exact ⟨hlt, (hkeep c' (hother c' hc')).trans hc'⟩
    fresh := fun c' hc => by
      have hc' := h.fresh c' hc
      exact (hkeep c' (hother c' hc')).trans hc'
    tracked := fun c' hc => by
      have hc' := (h.pending c' (ListenPc.conn_of_registered hc)).2
      exact (hconns c' (hother c' hc')).trans (h.tracked c' hc)
    serving := fun c' hc => by
      by_cases heq : c' = c
      · subst heq
        exact absurd ((Function.update_self ..).symm.trans hc) hserving
      · exact (hconns c' heq).trans (h.serving c' ((hkeep c' heq).symm.trans hc))
    ended := fun c' hc hs => by
      by_cases heq : c' = c
      · rw [heq]
        exact hself
      · exact hclosed c' (h.ended c' (hkeep c' heq ▸ hc) (hkeep c' heq ▸ hs))
    swept := fun hs => by
      obtain ⟨hall, hregistered⟩ := h.swept hs
      refine ⟨fun c' hc => ?_, hregistered⟩
      by_cases heq : c' = c
      · rw [heq]
        exact hself
      · exact hclosed c' (hall c' ((hconns c' heq).symm.trans hc)) }

private theorem Orderly.handlerStep (h : s.Orderly) (hstep : s.handlerStep e = some t) :
    t.Orderly := by
  cases e with
  | handlerReturns c =>
    simp only [ServerState.handlerStep] at hstep
    split at hstep <;> cases hstep
    have hpc : s.handler c = .serving := ‹_›
    exact h.handlerEnds (by simp [hpc]) (by simp) (fun _ _ => rfl)
      (Function.update_self ..) (closed_closeConn s c) s.slots s.wg
  | untrackConn c =>
    simp only [ServerState.handlerStep] at hstep
    split at hstep <;> cases hstep
    have hpc : s.handler c = .closed := ‹_›
    exact h.handlerEnds (by simp [hpc]) (by simp)
      (fun _ hne => Function.update_of_ne hne ..) (h.ended c (by simp [hpc]) (by simp [hpc]))
      (fun _ hc => hc) s.slots s.wg
  | releaseSlot c =>
    simp only [ServerState.handlerStep] at hstep
    split at hstep <;> cases hstep
    have hpc : s.handler c = .untracked := ‹_›
    exact h.handlerEnds (by simp [hpc]) (by simp) (fun _ _ => rfl)
      (h.ended c (by simp [hpc]) (by simp [hpc])) (fun _ hc => hc) _ s.wg
  | wgDone c =>
    simp only [ServerState.handlerStep] at hstep
    split at hstep <;> cases hstep
    have hpc : s.handler c = .released := ‹_›
    exact h.handlerEnds (by simp [hpc]) (by simp) (fun _ _ => rfl)
      (h.ended c (by simp [hpc]) (by simp [hpc])) (fun _ hc => hc) s.slots _
  | listenDone =>
    simp only [ServerState.handlerStep] at hstep
    split at hstep <;> cases hstep
    exact { h with }
  | _ => contradiction

private theorem Orderly.shutdownEnds (h : s.Orderly) (hstage : 3 ≤ s.shutdownPc.stage) (pc : ShutdownPc) :
    { s with shutdownPc := pc }.Orderly :=
  { h with
    flag := fun _ => h.flag (by omega)
    closedListener := fun _ => h.closedListener (by omega)
    swept := fun _ => h.swept hstage }

private theorem Orderly.shutdownStep (h : s.Orderly) (hcond : s.Ordered e)
    (hstep : s.shutdownStep e = some t) : t.Orderly := by
  cases e with
  | storeFlag =>
    simp only [ServerState.shutdownStep] at hstep
    split at hstep <;> cases hstep
    exact { h with
      flag := fun _ => rfl
      closedListener := fun hs => by simp [ShutdownPc.stage] at hs
      swept := fun hs => by simp [ShutdownPc.stage] at hs }
  | closeListener =>
    simp only [ServerState.shutdownStep] at hstep
    split at hstep <;> cases hstep
    have hpc : s.shutdownPc = .flagged := ‹_›
    have hlistener := hcond.1 rfl
    exact { h with
      flag := fun _ => h.flag (by simp [hpc, ShutdownPc.stage])
      closedListener := fun _ => ⟨hlistener, by simp [hlistener]⟩
      swept := fun hs => by simp [ShutdownPc.stage] at hs }
  | closeConns =>
    simp only [ServerState.shutdownStep] at hstep
    split at hstep <;> cases hstep
    have hpc : s.shutdownPc = .listenerClosed := ‹_›
    exact { h with
      flag := fun _ => h.flag (by simp [hpc, ShutdownPc.stage])
      closedListener := fun _ => h.closedListener (by simp [hpc, ShutdownPc.stage])
      ended := fun c hc hs => by simp [h.ended c hc hs]
      swept := fun _ => ⟨fun c hc => by simp [show s.conns c = true from hc], hcond.2 rfl⟩ }
  | wait drained =>
    simp only [ServerState.shutdownStep] at hstep
    split at hstep <;> cases hstep
    have hpc : s.shutdownPc = .connsClosed := (‹_ ∧ _› : _ ∧ _).1
    exact h.shutdownEnds (by simp [hpc, ShutdownPc.stage]) _
  | stopRouter =>
    simp only [ServerState.shutdownStep] at hstep
    split at hstep <;> cases hstep
    have hpc : s.shutdownPc = .waited := ‹_›
    exact h.shutdownEnds (by simp [hpc, ShutdownPc.stage]) _
  | _ => contradiction

private theorem Orderly.step (h : s.Orderly) (hcond : s.Ordered e) (hstep : s.step limit e = some t) :
    t.Orderly := by
  rcases step_cases hstep with ⟨-, hlisten⟩ | ⟨-, hhandler⟩ | ⟨-, hshutdown⟩
  · exact h.listenStep hlisten
  · exact h.handlerStep hhandler
  · exact h.shutdownStep hcond hshutdown

private theorem Orderly.closed_of_handed (h : s.Orderly) (hswept : 3 ≤ s.shutdownPc.stage) {c : Nat}
    (hc : s.handler c ≠ .idle) : s.closed c = true := by
  by_cases hserving : s.handler c = .serving
  · exact (h.swept hswept).1 c (h.serving c hserving)
  · exact h.ended c hc hserving

/-! ### The end of the accept loop -/

private theorem listenStep_shutdownPc (hstep : s.listenStep limit e = some t) :
    t.shutdownPc = s.shutdownPc := by
  cases e <;> simp only [ServerState.listenStep, closeConn] at hstep <;>
    (try split at hstep) <;> (try split at hstep) <;> cases hstep <;> rfl

private theorem handlerStep_pcs (hstep : s.handlerStep e = some t) :
    t.shutdownPc = s.shutdownPc ∧ t.listenPc = s.listenPc := by
  cases e <;> simp only [ServerState.handlerStep, closeConn] at hstep <;>
    (try split at hstep) <;> cases hstep <;> exact ⟨rfl, rfl⟩

private theorem shutdownStep_pcs (hstep : s.shutdownStep e = some t) :
    t.shutdownPc.stage = s.shutdownPc.stage + 1 ∧ t.listenPc = s.listenPc := by
  cases e <;> simp only [ServerState.shutdownStep] at hstep <;>
    (try split at hstep) <;> cases hstep <;> grind [ShutdownPc.stage]

/-- The server past the second step of `shutdown`. -/
structure Swept (s : ServerState) : Prop where
  orderly : s.Orderly
  stage : 3 ≤ s.shutdownPc.stage

theorem Swept.listenPc (h : s.Swept) :
    s.listenPc = .returned ∨ s.listenPc = .accepting ∨ (∃ c, s.listenPc = .accepted c) ∨
      (∃ c, s.listenPc = .tracked c) ∨ ∃ c, s.listenPc = .counted c := by
  have hstored := h.orderly.stored (h.orderly.closedListener (by have := h.stage; omega)).1
  have hregistered := (h.orderly.swept h.stage).2
  cases hpc : s.listenPc <;> simp_all [ListenPc.unregistered]

private theorem Swept.ordered (h : s.Swept) (hstep : s.shutdownStep e = some t) : s.Ordered e := by
  have hstage := h.stage
  constructor <;> rintro rfl <;> simp only [ServerState.shutdownStep] at hstep <;>
    split at hstep <;> simp_all [ShutdownPc.stage]

private theorem Swept.step (h : s.Swept) (hstep : s.step limit e = some t) :
    t.Swept ∧ (if e.ofListen then 1 else 0) + t.listenPc.remaining ≤ s.listenPc.remaining := by
  have hstage := h.stage
  rcases step_cases hstep with ⟨he, hlisten⟩ | ⟨he, hhandler⟩ | ⟨he, hshutdown⟩
  · have ht : t.Swept := ⟨h.orderly.listenStep hlisten, by rw [listenStep_shutdownPc hlisten]; omega⟩
    refine ⟨ht, ?_⟩
    have hflag := h.orderly.flag (by omega)
    have hclosed := (h.orderly.closedListener (by omega)).2
    rcases h.listenPc with hpc | hpc | ⟨c, hpc⟩ | ⟨c, hpc⟩ | ⟨c, hpc⟩ <;> cases e <;>
      simp_all [ServerState.listenStep, ServerEvent.ofListen] <;> subst hlisten <;>
      simp [ListenPc.remaining]
  · obtain ⟨hpc, hlisten⟩ := handlerStep_pcs hhandler
    exact ⟨⟨h.orderly.handlerStep hhandler, by rw [hpc]; omega⟩, by simp [he, hlisten]⟩
  · obtain ⟨hpc, hlisten⟩ := shutdownStep_pcs hshutdown
    exact ⟨⟨h.orderly.shutdownStep (h.ordered hshutdown) hshutdown, by omega⟩,
      by simp [he, hlisten]⟩

private theorem Swept.can_step (h : s.Swept) (hpc : s.listenPc ≠ .returned) :
    ∃ e, e.ofListen = true ∧ (s.step limit e).isSome := by
  have hflag := h.orderly.flag (by have := h.stage; omega)
  rcases h.listenPc with hret | hpc | ⟨c, hpc⟩ | ⟨c, hpc⟩ | ⟨c, hpc⟩
  · exact absurd hret hpc
  · exact ⟨.acceptFails, rfl, by simp [ServerState.step, ServerEvent.ofListen, listenStep, hpc]⟩
  · exact ⟨.testFlag, rfl, by simp [ServerState.step, ServerEvent.ofListen, listenStep, hpc, hflag]⟩
  · exact ⟨.wgAdd, rfl, by simp [ServerState.step, ServerEvent.ofListen, listenStep, hpc]⟩
  · exact ⟨.startHandler, rfl, by simp [ServerState.step, ServerEvent.ofListen, listenStep, hpc]⟩

/-- The accept loop terminates: whatever the others do, `startListen` takes a bounded number of
steps, and it is never stuck before it has returned. -/
def AcceptLoopEnds (limit : Nat) (s : ServerState) : Prop :=
  ∃ bound, ∀ more t, exec (step limit) s more = some t →
    more.countP ServerEvent.ofListen ≤ bound ∧
      (t.listenPc = .returned ∨ ∃ e, e.ofListen = true ∧ (t.step limit e).isSome)

private theorem Swept.exec (h : s.Swept) {more : List ServerEvent}
    (hrun : Framework.exec (ServerState.step limit) s more = some t) :
    t.Swept ∧ more.countP ServerEvent.ofListen + t.listenPc.remaining ≤ s.listenPc.remaining := by
  induction more generalizing s with
  | nil =>
    cases hrun
    exact ⟨h, by simp⟩
  | cons e more ih =>
    obtain ⟨u, hu, hrest⟩ := Option.bind_eq_some_iff.mp hrun
    obtain ⟨hswept, hfirst⟩ := h.step hu
    obtain ⟨ht, hlater⟩ := ih hswept hrest
    refine ⟨ht, ?_⟩
    rw [List.countP_cons]
    omega

private theorem Swept.acceptLoopEnds (h : s.Swept) (limit : Nat) : s.AcceptLoopEnds limit := by
  refine ⟨s.listenPc.remaining, fun more t hrun => ?_⟩
  obtain ⟨ht, hcount⟩ := h.exec hrun
  refine ⟨by omega, ?_⟩
  by_cases hpc : t.listenPc = .returned
  · exact .inl hpc
  · exact .inr (ht.can_step hpc)

/-- If `shutdown` finds the listener stored and closes the tracked connections while none is
about to be registered, then from that moment on every connection handed to `handleClient` is
closed, and the accept loop terminates. -/
theorem shutdown_closes_served_connections (maxConnections : Int) (events : List ServerEvent)
    (s : ServerState)
    (hcond : Along (step (maxConns maxConnections)) Ordered init events)
    (hrun : exec (step (maxConns maxConnections)) init events = some s)
    (hswept : 3 ≤ s.shutdownPc.stage) :
    (∀ c, s.handler c ≠ .idle → s.closed c = true) ∧
      s.AcceptLoopEnds (maxConns maxConnections) := by
  have horderly : s.Orderly :=
    hcond.invariant (fun _ _ _ h hcond hstep => h.step hcond hstep) orderly_init hrun
  exact ⟨fun c hc => horderly.closed_of_handed hswept hc,
    Swept.acceptLoopEnds ⟨horderly, hswept⟩ _⟩

/-- The run of the shutdown test: one idle client, then `shutdown`. -/
def idleClient : List ServerEvent :=
  [.listen true, .setListener, .accept, .testFlag, .select, .trackConn, .wgAdd, .startHandler,
    .storeFlag, .closeListener, .closeConns]

theorem shutdown_closes_served_connections_idle_client :
    ∃ s, exec (step (maxConns 0)) init idleClient = some s ∧ s.handler 0 = .serving ∧
      s.closed 0 = true ∧ s.AcceptLoopEnds (maxConns 0) := by
  have h := shutdown_closes_served_connections 0 idleClient _ (by decide +kernel) rfl (by decide)
  exact ⟨_, rfl, rfl, h.1 0 (by decide), h.2⟩

private theorem accepts_for_ever (hpc : s.listenPc = .accepting) (hopen : s.listenerOpen = true)
    (hflag : s.shuttingDown = true) (n : Nat) :
    ∃ more t, exec (step limit) s more = some t ∧ n ≤ more.countP ServerEvent.ofListen := by
  induction n generalizing s with
  | zero => exact ⟨[], s, rfl, Nat.zero_le _⟩
  | succ n ih =>
    -- a client connects and is rejected: the loop is where it was
    obtain ⟨more, t, hrun, hcount⟩ :=
      ih (s := { s.closeConn s.accepted with listenPc := .accepting, accepted := s.accepted + 1 })
        rfl hopen hflag
    refine ⟨.accept :: .testFlag :: more, t, ?_, ?_⟩
    · simpa [exec, step, ServerEvent.ofListen, listenStep, hpc, hopen, hflag, closeConn] using hrun
    · simp only [List.countP_cons, ServerEvent.ofListen, if_true]
      omega

private theorem not_acceptLoopEnds (hpc : s.listenPc = .accepting) (hopen : s.listenerOpen = true)
    (hflag : s.shuttingDown = true) : ¬ s.AcceptLoopEnds limit := by
  rintro ⟨bound, hbound⟩
  obtain ⟨more, t, hrun, hcount⟩ := accepts_for_ever hpc hopen hflag (bound + 1)
  have := (hbound more t hrun).1
  omega

/-- A connection that was admitted before the flag was set and registered after the tracked
connections were closed stays open; and a listener stored late keeps the accept loop going. -/
theorem shutdown_misses_connection_and_listener :
    (∃ s, exec (step (maxConns 0)) init
        [.listen true, .setListener, .accept, .testFlag, .select, .storeFlag, .closeListener,
          .closeConns, .trackConn, .wgAdd, .startHandler] = some s ∧
      s.shutdownPc = .connsClosed ∧ s.handler 0 = .serving ∧ s.closed 0 = false) ∧
    ∃ s, exec (step (maxConns 0)) init
        [.listen true, .storeFlag, .closeListener, .closeConns, .setListener] = some s ∧
      s.shutdownPc = .connsClosed ∧ ¬ s.AcceptLoopEnds (maxConns 0) := by
  exact ⟨⟨_, rfl, rfl, rfl, rfl⟩, _, rfl, rfl, not_acceptLoopEnds rfl rfl rfl⟩

end ServerState

end PinpointAgent.Server
