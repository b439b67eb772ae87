import PinpointAgent.ConnectionPool.RecvStream
import PinpointAgent.ConnectionPool.TransLayer
import PinpointAgent.Framework.Interleaving

/-!
# The event loop of a connection

`PoolEventOnce` connects if need be, waits in `select` and serves the events it reports; `SyncSendAll`
repeats it while `S_WRITING` is set. Everything the operating system answers during one call is an
argument: the clock and the descriptor of a connection attempt, the result of `select`, the
results of the `recv` and `send` calls.

A message handler may throw. The exception leaves the receive loops at the point where a return of
-1 would leave them, so a handler that throws returns -1 and notes the exception beside the state
of the handlers; `PoolEventOnce` looks there before it looks at the result. An attempt to connect throws
as well if nothing follows the scheme `tcp:`. The address is a C string shorter than 2 GiB.
-/

namespace PinpointAgent.ConnectionPool

open Framework Cache

def reconnectTimeSec : Int := 5

def fdSetSize : Nat := 1024

/-- Zero if the second text begins the first one, letters compared without their case. -/
def strcasecmp : List Char → List Char → Int
  | c₁ :: s₁, c₂ :: s₂ =>
      if c₁.toUpper ≠ c₂.toUpper then (c₁.toNat : Int) - c₂.toNat else strcasecmp s₁ s₂
  | _, [] => 0
  | [], _ :: _ => -1

def unixSocket : List Char := "unix:".toList

def tcpSocket : List Char := "tcp:".toList

inductive Dial where
  | unix (remote : List Char)
  | stream (remote : List Char)
deriving DecidableEq, Repr

def dialFor (statement : List Char) : Option Dial :=
  if strcasecmp statement unixSocket = 0 then some (.unix (statement.drop tcpSocket.length))
  else if strcasecmp statement tcpSocket = 0 then some (.stream (statement.drop tcpSocket.length))
  else none

inductive EventError (ε : Type*) where
  | handler (x : ε)
  /-- `std::string hostname(remote, -1)` of `connect_stream_remote`, which finds the colon of the scheme -/
  | lengthError
deriving DecidableEq, Repr

inductive SelectResult where
  | error
  | timeout
  /-- the sets of which the descriptor is a member afterwards -/
  | events (efds rfds wfds : Bool)
deriving DecidableEq, Repr

/-- A call of `connect_remote`: the two readings of the clock, and what the attempt yields. -/
structure ConnectAttempt where
  checked : Int
  stored : Int
  fd : Option Nat
deriving DecidableEq, Repr

/-- The answers of the operating system during one `PoolEventOnce`. -/
structure PollIo where
  connect : ConnectAttempt
  select : SelectResult
  recv : List RecvResult
  send : List SendResult
  reconnect : ConnectAttempt
deriving DecidableEq, Repr

section Handlers

variable {ε σ : Type*}

abbrev ThrowingHandler (ε σ : Type*) := σ → Int → List UInt8 → Except ε Int × σ

def noteException (handler : ThrowingHandler ε σ) : MsgHandleFunc (Option ε × σ) :=
  fun st type body =>
    match handler st.2 type body with
    | (.ok ret, s) => (ret, (none, s))
    | (.error x, s) => (-1, (some x, s))

def noteExceptions (routes : Int → Option (ThrowingHandler ε σ)) : RouterMsgMap (Option ε × σ) :=
  fun type => (routes type).map noteException

end Handlers

namespace TransLayer

/-- `copy_into_send_buffer` for spans of every size: lengths are cut to 32 bits, and each of the
two copies may find no memory. `none` is a copy that runs past the block it was given. -/
def copySpan (headerMalloc bodyMalloc : Bool) (t : TransLayer) (span : List UInt8) :
    Option (Bool × TransLayer) :=
  if t.chunks.checkCapacity ((headerSize + span.length) % 2 ^ 32) = false then some (false, t)
  else if headerMalloc && t.chunks.overrunsNewChunk (header span) then none
  else if bodyMalloc &&
      (t.chunks.copyDataIntoChunks headerMalloc (header span)).2.overrunsNewChunk
        (span.take (span.length % 2 ^ 32)) then none
  else
    some (true,
      { t with
        chunks :=
          ((t.chunks.copyDataIntoChunks headerMalloc (header span)).2.copyDataIntoChunks
            bodyMalloc (span.take (span.length % 2 ^ 32))).2
        state := { t.state with writing := true } })

end TransLayer

/-- A `TransLayer` with its receive buffer, its descriptor and the time of its last attempt to
connect. `cFd` has a meaning only while the layer is connected. -/
structure EventLayer (ε σ : Type*) where
  layer : TransLayer
  cFd : Nat
  lastConnectTime : Int
  receiver : Receiver (Option ε × σ)

namespace EventLayer

variable {ε σ : Type*}

def new (layer : TransLayer) (st : σ) : EventLayer ε σ := ⟨layer, 0, 0, Receiver.new (none, st)⟩

def connectRemote (coHost : String) (a : ConnectAttempt) (e : EventLayer ε σ) :
    Except (EventError ε) Unit × EventLayer ε σ :=
  if coHost = "" then (.ok (), e)
  else if a.checked < e.lastConnectTime + reconnectTimeSec then (.ok (), e)
  else
    match dialFor coHost.toList with
    | none => (.ok (), { e with lastConnectTime := a.stored })
    | some call =>
      if call = .stream [] then (.error .lengthError, { e with lastConnectTime := a.stored })
      else
        match a.fd with
        | some fd =>
          (.ok (), { e with layer := e.layer.connectRemote .opened, cFd := fd, lastConnectTime := a.stored })
        | none => (.ok (), { e with layer := e.layer.connectRemote .refused, lastConnectTime := a.stored })

def resetRemote (e : EventLayer ε σ) : EventLayer ε σ :=
  { e with
    layer := e.layer.resetRemote
    receiver := { e.receiver with inBufSize := 0 } }

def errNetwork (coHost : String) (io : PollIo) (e : EventLayer ε σ) : Except (EventError ε) Int × EventLayer ε σ :=
  match e.resetRemote.connectRemote coHost io.reconnect with
  | (.error x, e) => (.error x, e)
  | (.ok (), e) => (.ok (-1), e)

/-- A read event; `recv` would block when its results are used up. -/
def recvByteStream (routes : Int → Option (ThrowingHandler ε σ)) (results : List RecvResult)
    (e : EventLayer ε σ) : Except ε Int × EventLayer ε σ :=
  match ConnectionPool.recvByteStream (noteExceptions routes) e.receiver results with
  | (exit, receiver, _) =>
      (match receiver.st.1 with
        | some x => .error x
        | none => .ok (exit.elim 0 RecvExit.ret),
       { e with receiver := { receiver with st := (none, receiver.st.2) } })

def writeEvent (coHost : String) (io : PollIo) (wfds : Bool) (e : EventLayer ε σ) :
    Option (Except (EventError ε) Int × EventLayer ε σ) :=
  if e.layer.state.writing && wfds then
    match e.layer.sendMsgToCollector io.send with
    | none => none
    | some (ret, _, layer) =>
        if ret = -1 then some (errNetwork coHost io { e with layer })
        else some (.ok 0, { e with layer })
  else some (.ok 0, e)

def readEvent (coHost : String) (routes : Int → Option (ThrowingHandler ε σ)) (io : PollIo)
    (rfds wfds : Bool) (e : EventLayer ε σ) : Option (Except (EventError ε) Int × EventLayer ε σ) :=
  if e.layer.state.reading && rfds then
    match e.recvByteStream routes io.recv with
    | (.error x, e) => some (.error (.handler x), e)
    | (.ok ret, e) => if ret = -1 then some (errNetwork coHost io e) else e.writeEvent coHost io wfds
  else e.writeEvent coHost io wfds

/-- The part of `PoolEventOnce` that has a connection. -/
def pollConnected (coHost : String) (routes : Int → Option (ThrowingHandler ε σ)) (io : PollIo)
    (e : EventLayer ε σ) : Option (Except (EventError ε) Int × EventLayer ε σ) :=
  if fdSetSize ≤ e.cFd then some (.ok (-1), e.resetRemote)
  else
    match io.select with
    | .error => some (.ok (-1), e)
    | .timeout => some (.ok 0, e)
    | .events efds rfds wfds =>
        if e.layer.state.error && efds then some (errNetwork coHost io e)
        else e.readEvent coHost routes io rfds wfds

/-- `none` would be a drain that does not come to an end. -/
def poolEventOnce (coHost : String) (routes : Int → Option (ThrowingHandler ε σ)) (io : PollIo)
    (e : EventLayer ε σ) : Option (Except (EventError ε) Int × EventLayer ε σ) :=
  if e.layer.connected then e.pollConnected coHost routes io
  else
    match e.connectRemote coHost io.connect with
    | (.error x, e) => some (.error x, e)
    | (.ok (), e) => if e.layer.connected then e.pollConnected coHost routes io else some (.ok (-1), e)

def maxRetryItems : Nat := 20

def syncLoop (coHost : String) (routes : Int → Option (ThrowingHandler ε σ)) (ios : Nat → PollIo) :
    Nat → EventLayer ε σ → Option (Except (EventError ε) Unit × EventLayer ε σ)
  | 0, e => some (.ok (), e)
  | turns + 1, e =>
      if e.layer.state.writing then
        match e.poolEventOnce coHost routes (ios turns) with
        | none => none
        | some (.error x, e) => some (.error x, e)
        | some (.ok _, e) => syncLoop coHost routes ios turns e
      else some (.ok (), e)

def syncSendAll (coHost : String) (routes : Int → Option (ThrowingHandler ε σ))
    (ios : Nat → PollIo) (e : EventLayer ε σ) : Option (Except (EventError ε) Unit × EventLayer ε σ) :=
  e.syncLoop coHost routes ios maxRetryItems

end EventLayer

inductive LayerCall where
  | copyIntoSendBuffer (headerMalloc bodyMalloc : Bool) (span : List UInt8)
  | poolEventOnce (io : PollIo)
  | syncSendAll (ios : Nat → PollIo)

namespace EventLayer

variable {ε σ : Type*} (coHost : String) (routes : Int → Option (ThrowingHandler ε σ))

def call (e : EventLayer ε σ) : LayerCall → Option (EventLayer ε σ)
  | .copyIntoSendBuffer headerMalloc bodyMalloc span =>
      (e.layer.copySpan headerMalloc bodyMalloc span).map fun r => { e with layer := r.2 }
  | .poolEventOnce io => (e.poolEventOnce coHost routes io).map Prod.snd
  | .syncSendAll ios => (e.syncSendAll coHost routes ios).map Prod.snd

end EventLayer

/-! ## No buffered span is stranded -/

/-- Pending bytes are waited for with `S_WRITING`, a connection with `S_READING` and `S_ERROR`. -/
structure TransLayer.Attentive (t : TransLayer) : Prop where
  sound : t.chunks.Sound
  writing : t.chunks.pendingBytes ≠ [] → t.state.writing = true
  listening : t.connected = true → t.state.reading = true ∧ t.state.error = true

namespace TransLayer

variable {t : TransLayer}

theorem attentive_new (h : new = .ok t) : t.Attentive := by
  cases h
  exact ⟨⟨by simp, by simp, rfl⟩, fun hne => absurd rfl hne, fun hc => by cases hc⟩

private theorem Attentive.connectRemote (h : t.Attentive) (r : ConnectResult) :
    (t.connectRemote r).Attentive := by
  cases r with
  | skipped => exact h
  | refused => exact ⟨h.sound, fun _ => rfl, fun hc => by cases hc⟩
  | opened => exact ⟨h.sound, fun _ => rfl, fun _ => ⟨rfl, rfl⟩⟩

private theorem attentive_resetRemote (h : t.chunks.Sound) : t.resetRemote.Attentive := by
  obtain ⟨hsound, hempty⟩ := Chunks.resetChunks_spec h
  exact ⟨hsound, fun hne => absurd hempty hne, fun hc => by cases hc⟩

theorem Attentive.copySpan (h : t.Attentive) {headerMalloc bodyMalloc : Bool} {span : List UInt8}
    {r : Bool × TransLayer} (hcopy : t.copySpan headerMalloc bodyMalloc span = some r) :
    r.2.Attentive := by
  unfold TransLayer.copySpan at hcopy
  split at hcopy
  · cases hcopy
    exact h
  · split at hcopy
    · cases hcopy
    · rename_i hheader
      split at hcopy
      · cases hcopy
      · rename_i hbody
        cases hcopy
        rw [Bool.and_eq_true, not_and, Bool.not_eq_true] at hheader hbody
        have hsound := Chunks.copyDataIntoChunks_sound h.sound hheader
        exact ⟨Chunks.copyDataIntoChunks_sound hsound hbody, fun _ => rfl, h.listening⟩

theorem Attentive.copySpan_isSome (h : t.Attentive) {headerMalloc bodyMalloc : Bool}
    {span : List UInt8} (hlen : dataChunkSize + span.length % 2 ^ 32 < 2 ^ 31) :
    (t.copySpan headerMalloc bodyMalloc span).isSome = true := by
  have hheader : t.chunks.overrunsNewChunk (header span) = false :=
    Chunks.overrunsNewChunk_of_short h.sound (by simp [header, dataChunkSize])
  have hsound : (t.chunks.copyDataIntoChunks headerMalloc (header span)).2.Sound :=
    Chunks.copyDataIntoChunks_sound h.sound fun _ => hheader
  have hcut : dataChunkSize + (span.take (span.length % 2 ^ 32)).length < 2 ^ 31 := by
    rw [List.length_take]
    omega
  have hbody := Chunks.overrunsNewChunk_of_short hsound hcut
  unfold TransLayer.copySpan
  split
  · rfl
  · rw [hheader, hbody, Bool.and_false, Bool.and_false]
    rfl

theorem copySpan_of_short (h : t.chunks.Sound) {span : List UInt8} (hlen : span.length ≤ 2 ^ 30) :
    t.copySpan true true span = some (t.copyIntoSendBuffer span) := by
  have hsize : (headerSize + span.length) % 2 ^ 32 = (header span).length + span.length := by
    rw [Nat.mod_eq_of_lt (by rw [headerSize]; omega)]
    simp [header, headerSize]
  have hcut : span.take (span.length % 2 ^ 32) = span := by
    rw [Nat.mod_eq_of_lt (by omega), List.take_length]
  have hheader : t.chunks.overrunsNewChunk (header span) = false :=
    Chunks.overrunsNewChunk_of_short h (by simp [header, dataChunkSize])
  have hsound : (t.chunks.copyDataIntoChunks true (header span)).2.Sound :=
    Chunks.copyDataIntoChunks_sound h fun _ => hheader
  have hbody := Chunks.overrunsNewChunk_of_short hsound
    (show dataChunkSize + span.length < 2 ^ 31 by rw [dataChunkSize]; omega)
  rw [TransLayer.copySpan, TransLayer.copyIntoSendBuffer, hsize, hcut, hheader, hbody]
  split
  · rfl
  · rfl

private theorem Attentive.sendMsgToCollector (h : t.Attentive) (script : List SendResult) :
    ∃ ret sent t', t.sendMsgToCollector script = some (ret, sent, t') ∧ t'.chunks.Sound ∧
      (ret ≠ -1 → t'.Attentive) := by
  obtain ⟨ret, sent, t', hsend, hsound, hconn, -⟩ := sendMsgToCollector_spec h.sound script
  refine ⟨ret, sent, t', hsend, hsound, fun hret => ⟨hsound, fun hne => ?_, fun hc => ?_⟩⟩
  · rcases sendMsgToCollector_writing h.sound hret hsend with hempty | hwriting
    · exact absurd hempty hne
    · exact hwriting
  · have hflags := h.listening (hconn ▸ hc)
    rw [TransLayer.sendMsgToCollector] at hsend
    split at hsend
    · cases hsend
    · cases hsend
      exact hflags

end TransLayer

namespace EventLayer

variable {ε σ : Type*} {coHost : String} {routes : Int → Option (ThrowingHandler ε σ)}
  {e : EventLayer ε σ}

def connectResult (coHost : String) (a : ConnectAttempt) (e : EventLayer ε σ) : ConnectResult :=
  if coHost = "" then .skipped
  else if a.checked < e.lastConnectTime + reconnectTimeSec then .skipped
  else
    match dialFor coHost.toList with
    | none => .skipped
    | some call =>
      if call = .stream [] then .skipped
      else
        match a.fd with
        | some _ => .opened
        | none => .refused

theorem connectRemote_spec (coHost : String) (a : ConnectAttempt) (e : EventLayer ε σ) :
    (e.connectRemote coHost a).2.layer = e.layer.connectRemote (e.connectResult coHost a) ∧
      (e.connectRemote coHost a).2.receiver = e.receiver ∧
      ∀ x, (e.connectRemote coHost a).1 = .error x → x = .lengthError ∧ dialFor coHost.toList = some (.stream []) := by
  unfold EventLayer.connectRemote EventLayer.connectResult
  split
  · exact ⟨rfl, rfl, fun x hx => by cases hx⟩
  · split
    · exact ⟨rfl, rfl, fun x hx => by cases hx⟩
    · split
      · exact ⟨rfl, rfl, fun x hx => by cases hx⟩
      · next call hcall =>
        by_cases hempty : call = .stream []
        · subst hempty
          refine ⟨rfl, rfl, fun x hx => ?_⟩
          cases hx
          exact ⟨rfl, hcall⟩
        · simp only [if_neg hempty]
          cases a.fd with
          | none => exact ⟨rfl, rfl, fun x hx => by cases hx⟩
          | some fd => exact ⟨rfl, rfl, fun x hx => by cases hx⟩

private theorem attentive_connectRemote (h : e.layer.Attentive) (a : ConnectAttempt) :
    (e.connectRemote coHost a).2.layer.Attentive := by
  rw [(connectRemote_spec coHost a e).1]
  exact h.connectRemote _

section Serve

variable {X : EventError ε → Prop} {R : Receiver (Option ε × σ) → Prop}

/-- A call returns and leaves a receiver with `R`, or throws an exception with `X`; the layer is
attentive either way. -/
structure Served (X : EventError ε → Prop) (R : Receiver (Option ε × σ) → Prop)
    (r : Except (EventError ε) Int × EventLayer ε σ) : Prop where
  attentive : r.2.layer.Attentive
  thrown : ∀ x, r.1 = .error x → X x
  returned : ∀ ret, r.1 = .ok ret → R r.2.receiver

def Serves (X : EventError ε → Prop) (R : Receiver (Option ε × σ) → Prop)
    (r : Option (Except (EventError ε) Int × EventLayer ε σ)) : Prop :=
  ∃ out, r = some out ∧ Served X R out

private theorem served_ok (h : e.layer.Attentive) (hR : R e.receiver) (ret : Int) :
    Served X R (.ok ret, e) :=
  ⟨h, (fun x hx => by cases hx), fun _ _ => hR⟩

structure Reads (routes : Int → Option (ThrowingHandler ε σ)) (results : List RecvResult)
    (X : EventError ε → Prop) (R : Receiver (Option ε × σ) → Prop) (e : EventLayer ε σ) : Prop where
  thrown : ∀ x, (e.recvByteStream routes results).1 = .error x → X (.handler x)
  kept : ∀ ret, (e.recvByteStream routes results).1 = .ok ret → ret ≠ -1 →
    R (e.recvByteStream routes results).2.receiver
  reset : ∀ ret, (e.recvByteStream routes results).1 = .ok ret →
    R { (e.recvByteStream routes results).2.receiver with inBufSize := 0 }

def Dials (X : EventError ε → Prop) (coHost : String) : Prop :=
  dialFor coHost.toList = some (.stream []) → X .lengthError

private theorem served_errNetwork (hdials : Dials X coHost) (h : e.layer.chunks.Sound)
    (hR : R { e.receiver with inBufSize := 0 }) (io : PollIo) : Served X R (e.errNetwork coHost io) := by
  have hattentive : (e.resetRemote.connectRemote coHost io.reconnect).2.layer.Attentive :=
    attentive_connectRemote (TransLayer.attentive_resetRemote h) io.reconnect
  obtain ⟨-, hreceiver, hthrown⟩ := connectRemote_spec coHost io.reconnect e.resetRemote
  unfold errNetwork
  generalize e.resetRemote.connectRemote coHost io.reconnect = r at hattentive hreceiver hthrown
  obtain ⟨x | ⟨⟩, e'⟩ := r
  · refine ⟨hattentive, fun y hy => ?_, fun ret hret => by cases hret⟩
    cases hy
    obtain ⟨rfl, hempty⟩ := hthrown x rfl
    exact hdials hempty
  · exact served_ok hattentive (hreceiver.symm ▸ hR) (-1)

variable (hdials : Dials X coHost) (hreset : ∀ r, R r → R { r with inBufSize := 0 })
include hdials hreset

private theorem serves_writeEvent (h : e.layer.Attentive) (hR : R e.receiver) (io : PollIo) (wfds : Bool) :
    Serves X R (e.writeEvent coHost io wfds) := by
  unfold EventLayer.writeEvent
  split
  · obtain ⟨ret, sent, layer, hsend, hsound, hattentive⟩ := h.sendMsgToCollector io.send
    rw [hsend]
    by_cases hret : ret = -1
    · exact ⟨_, if_pos hret, served_errNetwork (e := { e with layer }) hdials hsound (hreset _ hR) io⟩
    · exact ⟨_, if_neg hret, served_ok (e := { e with layer }) (hattentive hret) hR 0⟩
  · exact ⟨_, rfl, served_ok h hR 0⟩

private theorem serves_readEvent (h : e.layer.Attentive) (hR : R e.receiver) {io : PollIo}
    (hread : e.Reads routes io.recv X R) (rfds wfds : Bool) :
    Serves X R (e.readEvent coHost routes io rfds wfds) := by
  unfold EventLayer.readEvent
  split
  · -- reading changes the receive buffer and the handlers' state only
    have hlayer : (e.recvByteStream routes io.recv).2.layer = e.layer := rfl
    obtain ⟨hthrown, hkept, hdropped⟩ := hread
    generalize e.recvByteStream routes io.recv = r at hlayer hthrown hkept hdropped
    obtain ⟨x | ret, e'⟩ := r
    · refine ⟨_, rfl, hlayer ▸ h, fun y hy => ?_, fun ret hret => by cases hret⟩
      cases hy
      exact hthrown x rfl
    · by_cases hret : ret = -1
      · exact ⟨_, if_pos hret, served_errNetwork hdials (hlayer ▸ h.sound) (hdropped ret rfl) io⟩
      · simp only [if_neg hret]
        exact serves_writeEvent hdials hreset (hlayer ▸ h) (hkept ret rfl hret) io wfds
  · exact serves_writeEvent hdials hreset h hR io wfds

private theorem serves_pollConnected (h : e.layer.Attentive) (hR : R e.receiver) {io : PollIo}
    (hread : e.Reads routes io.recv X R) : Serves X R (e.pollConnected coHost routes io) := by
  unfold EventLayer.pollConnected
  split
  · exact ⟨_, rfl, served_ok (TransLayer.attentive_resetRemote h.sound) (hreset _ hR) (-1)⟩
  · split
    · exact ⟨_, rfl, served_ok h hR (-1)⟩
    · exact ⟨_, rfl, served_ok h hR 0⟩
    · split
      · exact ⟨_, rfl, served_errNetwork hdials h.sound (hreset _ hR) io⟩
      · exact serves_readEvent hdials hreset h hR hread _ _

theorem serves_poolEventOnce (h : e.layer.Attentive) (hR : R e.receiver) {io : PollIo}
    (hread : e.Reads routes io.recv X R) : Serves X R (e.poolEventOnce coHost routes io) := by
  have hconnect : (e.connectRemote coHost io.connect).2.layer.Attentive :=
    attentive_connectRemote h io.connect
  obtain ⟨-, hsame, hthrown⟩ := connectRemote_spec coHost io.connect e
  unfold EventLayer.poolEventOnce
  split
  · exact serves_pollConnected hdials hreset h hR hread
  · generalize e.connectRemote coHost io.connect = r at hconnect hsame hthrown
    obtain ⟨x | ⟨⟩, e'⟩ := r
    · refine ⟨_, rfl, hconnect, fun y hy => ?_, fun ret hret => by cases hret⟩
      cases hy
      obtain ⟨rfl, hempty⟩ := hthrown x rfl
      exact hdials hempty
    · dsimp only at hconnect hsame ⊢
      split
      · refine serves_pollConnected hdials hreset hconnect (hsame.symm ▸ hR) ?_
        -- a read event looks at nothing but the receiver
        have hcall : (e'.recvByteStream routes io.recv).1 = (e.recvByteStream routes io.recv).1 ∧
            (e'.recvByteStream routes io.recv).2.receiver = (e.recvByteStream routes io.recv).2.receiver := by
          unfold EventLayer.recvByteStream
          rw [hsame]
          exact ⟨rfl, rfl⟩
        exact ⟨by rw [hcall.1]; exact hread.thrown, by rw [hcall.1, hcall.2]; exact hread.kept,
          by rw [hcall.1, hcall.2]; exact hread.reset⟩
      · exact ⟨_, rfl, served_ok hconnect (hsame.symm ▸ hR) (-1)⟩

end Serve

/-- Every turn of a `SyncSendAll` starts in a state in which `cond` allows it. -/
def SyncAlong (coHost : String) (routes : Int → Option (ThrowingHandler ε σ))
    (cond : EventLayer ε σ → PollIo → Prop) (ios : Nat → PollIo) : Nat → EventLayer ε σ → Prop
  | 0, _ => True
  | turns + 1, e =>
      e.layer.state.writing = true → cond e (ios turns) ∧
        ∀ ret e', e.poolEventOnce coHost routes (ios turns) = some (.ok ret, e') →
          SyncAlong coHost routes cond ios turns e'

/-- `SyncSendAll` comes to an end: it throws, or `S_WRITING` is clear, or all turns are used. -/
theorem syncLoop_ends {X : EventError ε → Prop} {R : Receiver (Option ε × σ) → Prop}
    {cond : EventLayer ε σ → PollIo → Prop} (hdials : Dials X coHost)
    (hreset : ∀ r, R r → R { r with inBufSize := 0 })
    (hcond : ∀ e io, R e.receiver → cond e io → e.Reads routes io.recv X R)
    {ios : Nat → PollIo} (turns : Nat) (h : e.layer.Attentive) (hR : R e.receiver)
    (halong : SyncAlong coHost routes cond ios turns e) :
    ∃ ret e', e.syncLoop coHost routes ios turns = some (ret, e') ∧ e'.layer.Attentive ∧
      (∀ x, ret = .error x → X x) ∧ (ret = .ok () → R e'.receiver) := by
  induction turns generalizing e with
  | zero => exact ⟨_, _, rfl, h, (fun x hx => by cases hx), fun _ => hR⟩
  | succ turns ih =>
    unfold EventLayer.syncLoop
    split
    · next hwriting =>
      obtain ⟨hnow, hnext⟩ := halong hwriting
      obtain ⟨⟨x | ret, e'⟩, hpoll, hserved⟩ : Serves X R (e.poolEventOnce coHost routes (ios turns)) :=
        serves_poolEventOnce hdials hreset h hR (hcond e _ hR hnow)
      · rw [hpoll]
        refine ⟨_, _, rfl, hserved.attentive, fun y hy => ?_, fun hok => by cases hok⟩
        cases hy
        exact hserved.thrown x rfl
      · rw [hpoll]
        exact ih hserved.attentive (hserved.returned ret rfl) (hnext ret e' hpoll)
    · exact ⟨_, _, rfl, h, (fun x hx => by cases hx), fun _ => hR⟩

section Arbitrary

/-! Whatever the handlers do. -/

private theorem reads_any (results : List RecvResult) (e : EventLayer ε σ) :
    e.Reads routes results (fun _ => True) (fun _ => True) :=
  ⟨fun _ _ => trivial, fun _ _ _ => trivial, fun _ _ => trivial⟩

private theorem syncAlong_any (ios : Nat → PollIo) (turns : Nat) (e : EventLayer ε σ) :
    SyncAlong coHost routes (fun _ _ => True) ios turns e := by
  induction turns generalizing e with
  | zero => trivial
  | succ turns ih => exact fun _ => ⟨trivial, fun _ e' _ => ih e'⟩

theorem poolEventOnce_attentive (h : e.layer.Attentive) (io : PollIo) :
    ∃ out, e.poolEventOnce coHost routes io = some out ∧ out.2.layer.Attentive := by
  obtain ⟨out, hpoll, hserved⟩ : Serves (fun _ => True) (fun _ => True)
      (e.poolEventOnce coHost routes io) :=
    serves_poolEventOnce (fun _ => trivial) (fun _ _ => trivial) h trivial (reads_any io.recv e)
  exact ⟨out, hpoll, hserved.attentive⟩

private theorem syncSendAll_attentive (h : e.layer.Attentive) (ios : Nat → PollIo) :
    ∃ ret e', e.syncSendAll coHost routes ios = some (ret, e') ∧ e'.layer.Attentive := by
  have halong : SyncAlong coHost routes (fun _ _ => True) ios maxRetryItems e :=
    syncAlong_any ios maxRetryItems e
  obtain ⟨ret, e', hsync, h', -⟩ :=
    syncLoop_ends (X := fun _ => True) (R := fun _ => True) (fun _ => trivial) (fun _ _ => trivial)
      (fun e io _ _ => reads_any io.recv e) maxRetryItems h trivial halong
  exact ⟨ret, e', hsync, h'⟩

end Arbitrary

def spansOf : List LayerCall → List (List UInt8)
  | [] => []
  | .copyIntoSendBuffer _ _ span :: calls => span :: spansOf calls
  | .poolEventOnce _ :: calls | .syncSendAll _ :: calls => spansOf calls

theorem attentive_call {c : LayerCall} {e' : EventLayer ε σ} (h : e.layer.Attentive)
    (hcall : e.call coHost routes c = some e') : e'.layer.Attentive := by
  cases c with
  | copyIntoSendBuffer headerMalloc bodyMalloc span =>
    obtain ⟨r, hcopy, rfl⟩ := Option.map_eq_some_iff.mp hcall
    exact h.copySpan hcopy
  | poolEventOnce io =>
    obtain ⟨r, hpoll, rfl⟩ := Option.map_eq_some_iff.mp hcall
    obtain ⟨out, hserved, h'⟩ :
        ∃ out, e.poolEventOnce coHost routes io = some out ∧ out.2.layer.Attentive :=
      poolEventOnce_attentive h io
    cases hserved.symm.trans hpoll
    exact h'
  | syncSendAll ios =>
    obtain ⟨r, hsync, rfl⟩ := Option.map_eq_some_iff.mp hcall
    obtain ⟨ret, e', hserved, h'⟩ :
        ∃ ret e', e.syncSendAll coHost routes ios = some (ret, e') ∧ e'.layer.Attentive :=
      syncSendAll_attentive h ios
    cases hserved.symm.trans hsync
    exact h'

private theorem oversized_of_call_eq_none {c : LayerCall} (h : e.layer.Attentive)
    (hcall : e.call coHost routes c = none) :
    ∃ headerMalloc bodyMalloc span, c = .copyIntoSendBuffer headerMalloc bodyMalloc span ∧
      2 ^ 31 ≤ dataChunkSize + span.length % 2 ^ 32 := by
  cases c with
  | copyIntoSendBuffer headerMalloc bodyMalloc span =>
    refine ⟨headerMalloc, bodyMalloc, span, rfl, ?_⟩
    by_contra hshort
    have hsome : (e.layer.copySpan headerMalloc bodyMalloc span).isSome = true :=
      h.copySpan_isSome (Nat.lt_of_not_le hshort)
    rw [Option.map_eq_none_iff.mp hcall] at hsome
    cases hsome
  | poolEventOnce io =>
    obtain ⟨out, hserved, -⟩ :
        ∃ out, e.poolEventOnce coHost routes io = some out ∧ out.2.layer.Attentive :=
      poolEventOnce_attentive h io
    cases hserved.symm.trans (Option.map_eq_none_iff.mp hcall)
  | syncSendAll ios =>
    obtain ⟨ret, e', hserved, -⟩ :
        ∃ ret e', e.syncSendAll coHost routes ios = some (ret, e') ∧ e'.layer.Attentive :=
      syncSendAll_attentive h ios
    cases hserved.symm.trans (Option.map_eq_none_iff.mp hcall)

private theorem oversized_of_exec_eq_none {calls : List LayerCall} (h : e.layer.Attentive)
    (hrun : exec (call coHost routes) e calls = none) :
    ∃ span ∈ spansOf calls, 2 ^ 31 ≤ dataChunkSize + span.length % 2 ^ 32 := by
  induction calls generalizing e with
  | nil => cases hrun
  | cons c calls ih =>
    cases hcall : e.call coHost routes c with
    | none =>
      obtain ⟨headerMalloc, bodyMalloc, span, rfl, hlong⟩ := oversized_of_call_eq_none h hcall
      exact ⟨span, List.mem_cons_self, hlong⟩
    | some e' =>
      rw [exec, hcall, Option.bind_some] at hrun
      obtain ⟨span, hmem, hlong⟩ := ih (attentive_call h hcall) hrun
      refine ⟨span, ?_, hlong⟩
      cases c with
      | copyIntoSendBuffer _ _ _ => exact List.mem_cons_of_mem _ hmem
      | poolEventOnce _ => exact hmem
      | syncSendAll _ => exact hmem

/-- After every sequence of calls, pending bytes have `S_WRITING` set and a connection has
`S_READING` and `S_ERROR` set, and a `SyncSendAll` that finds `S_WRITING` clear leaves nothing
pending. The sequence is cut short only by a copy that writes past the memory it allocated, and
that takes a span of about 2 GiB. -/
theorem buffered_span_not_stranded (coHost : String) (routes : Int → Option (ThrowingHandler ε σ))
    (st : σ) (calls : List LayerCall) :
    ∃ layer, TransLayer.new = .ok layer ∧
      ((∃ t, exec (call coHost routes) (new layer st) calls = some t ∧
          (t.layer.chunks.pendingBytes ≠ [] → t.layer.state.writing = true) ∧
          (t.layer.connected = true →
            t.layer.state.reading = true ∧ t.layer.state.error = true) ∧
          ∀ ios, ∃ ret t', t.syncSendAll coHost routes ios = some (ret, t') ∧
            (t'.layer.state.writing = false → t'.layer.chunks.pendingBytes = [])) ∨
        (exec (call coHost routes) (new layer st) calls = none ∧
          ∃ span ∈ spansOf calls, 2 ^ 31 ≤ dataChunkSize + span.length % 2 ^ 32)) := by
  have hnew : ∃ layer, TransLayer.new = .ok layer := ⟨_, rfl⟩
  obtain ⟨layer, hlayer⟩ := hnew
  have hstart : (new layer st : EventLayer ε σ).layer.Attentive :=
    TransLayer.attentive_new hlayer
  refine ⟨layer, hlayer, ?_⟩
  cases hrun : exec (call coHost routes) (new layer st) calls with
  | none => exact .inr ⟨rfl, oversized_of_exec_eq_none hstart hrun⟩
  | some t =>
    have ht : t.layer.Attentive :=
      exec_invariant (P := fun e : EventLayer ε σ => e.layer.Attentive)
        (fun _ _ _ h hcall => attentive_call h hcall) hstart hrun
    refine .inl ⟨t, rfl, ht.writing, ht.listening, fun ios => ?_⟩
    obtain ⟨ret, t', hsync, ht'⟩ :
        ∃ ret t', t.syncSendAll coHost routes ios = some (ret, t') ∧ t'.layer.Attentive :=
      syncSendAll_attentive ht ios
    refine ⟨ret, t', hsync, fun hclear => ?_⟩
    by_contra hne
    rw [ht'.writing hne] at hclear
    cases hclear

end EventLayer

end PinpointAgent.ConnectionPool
