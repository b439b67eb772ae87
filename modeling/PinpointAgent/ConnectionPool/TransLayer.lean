import PinpointAgent.Cache.ByteFifo
import PinpointAgent.Framework.Framing

/-!
# The sending side of a connection

`TransLayer` queues framed spans in `Chunks` and writes them to a non-blocking socket when the
event loop finds it writable. A `send` may take any part of what it is given, would block, or
fails; a failure closes the connection and drops everything that is queued.

The status callback of `_reset_remote`, the receive buffer and the clock that delays reconnects
are left out. Whether `connect_remote` obtains a descriptor is a parameter.
-/

namespace PinpointAgent.ConnectionPool

open Framework Cache

inductive SendResult where
  /-- `send` takes `n + 1` bytes, or all that it is given -/
  | accepted (n : Nat)
  | wouldBlock
  | zero
  | failed
deriving DecidableEq, Repr

/-- The results of the next `send` calls, what the kernel has taken, and the flag `S_WRITING`. -/
structure Socket where
  script : List SendResult
  wire : List UInt8
  writing : Bool
deriving DecidableEq, Repr

def doWriteLoop (data : List UInt8) (writing : Bool) :
    List SendResult → List UInt8 → Nat → Int × Socket
  | script, wire, bufOfs =>
      if bufOfs < data.length then
        match script with
        | [] => (bufOfs, ⟨[], wire, true⟩)
        | .accepted n :: script =>
            let size := min (n + 1) (data.length - bufOfs)
            doWriteLoop data writing script (wire ++ (data.drop bufOfs).take size) (bufOfs + size)
        | .wouldBlock :: script => (bufOfs, ⟨script, wire, true⟩)
        | .zero :: script => (-1, ⟨script, wire, writing⟩)
        | .failed :: script => (-1, ⟨script, wire, writing⟩)
      else (data.length, ⟨script, wire, false⟩)

/-- `_do_write_data`. A script that is used up stands for a socket that would block. -/
def doWriteData : Sink Socket UInt8 :=
  fun socket data => doWriteLoop data socket.writing socket.script socket.wire 0

structure EState where
  writing : Bool
  reading : Bool
  error : Bool
deriving DecidableEq, Repr

structure TransLayer where
  chunks : Chunks
  state : EState
  /-- `c_fd` is not -1 -/
  connected : Bool
deriving DecidableEq, Repr

inductive ConnectResult where
  /-- the address is not valid, or the last attempt was too short ago -/
  | skipped
  | refused
  | opened
deriving DecidableEq, Repr

namespace TransLayer

def chunkMaxSize : Nat := 10 * 1024 * 1024

def chunkHoldSize : Nat := 40 * 1024

def new : Except String TransLayer := do
  let chunks ← Chunks.new chunkMaxSize chunkHoldSize
  return ⟨chunks, ⟨false, false, false⟩, false⟩

def connectRemote (t : TransLayer) : ConnectResult → TransLayer
  | .skipped => t
  | .refused => { t with connected := false, state := ⟨true, true, true⟩ }
  | .opened => { t with connected := true, state := ⟨true, true, true⟩ }

def resetRemote (t : TransLayer) : TransLayer :=
  { chunks := t.chunks.resetChunks
    connected := false
    state := if t.connected then ⟨false, false, false⟩ else t.state }

def reqUpdateSpan : Nat := 1

def header (span : List UInt8) : List UInt8 := be32 reqUpdateSpan ++ be32 span.length

def copyIntoSendBuffer (t : TransLayer) (span : List UInt8) : Bool × TransLayer :=
  if t.chunks.checkCapacity ((header span).length + span.length) = false then (false, t)
  else
    let chunks := (t.chunks.copyDataIntoChunks true (header span)).2
    let chunks := (chunks.copyDataIntoChunks true span).2
    (true, { t with chunks, state := { t.state with writing := true } })

/-- Returns the answer of `drainOutWithPipe` and what `send` has taken. -/
def sendMsgToCollector (t : TransLayer) (script : List SendResult) :
    Option (Int × List UInt8 × TransLayer) :=
  match t.chunks.drainOutWithPipe doWriteData ⟨script, [], t.state.writing⟩ with
  | none => none
  | some (ret, socket, chunks) =>
      some (ret, socket.wire,
        { t with chunks, state := { t.state with writing := socket.writing } })

end TransLayer

/-- What the constructor of `TransLayer` leaves behind. -/
def freshLayer : TransLayer :=
  ⟨⟨[], [], TransLayer.chunkHoldSize, TransLayer.chunkMaxSize, 1024, 0, 0⟩, ⟨false, false, false⟩, false⟩

theorem new_eq_freshLayer : TransLayer.new = .ok freshLayer := rfl

private theorem doWriteLoop_spec (data : List UInt8) (writing : Bool) (script : List SendResult)
    (base : List UInt8) {bufOfs : Nat} (hofs : bufOfs ≤ data.length) {r : Int × Socket}
    (hr : doWriteLoop data writing script (base ++ data.take bufOfs) bufOfs = r) :
    ∃ k ≤ data.length, r.2.wire = base ++ data.take k ∧ (r.1 = -1 ∨ r.1 = k) := by
  induction script generalizing bufOfs with
  | nil =>
      unfold doWriteLoop at hr
      split at hr <;> subst hr
      · exact ⟨bufOfs, hofs, rfl, .inr rfl⟩
      · have hend : bufOfs = data.length := by omega
        exact ⟨bufOfs, hofs, rfl, .inr (by rw [hend])⟩
  | cons result script ih =>
      unfold doWriteLoop at hr
      by_cases hmore : bufOfs < data.length
      · rw [if_pos hmore] at hr
        cases result with
        | accepted n =>
            have hwire : base ++ data.take bufOfs ++
                (data.drop bufOfs).take (min (n + 1) (data.length - bufOfs)) =
                  base ++ data.take (bufOfs + min (n + 1) (data.length - bufOfs)) := by
              rw [List.append_assoc, List.take_add]
            simp only [hwire] at hr
            exact ih (by omega) hr
        | wouldBlock =>
            subst hr
            exact ⟨bufOfs, hofs, rfl, .inr rfl⟩
        | zero =>
            subst hr
            exact ⟨bufOfs, hofs, rfl, .inl rfl⟩
        | failed =>
            subst hr
            exact ⟨bufOfs, hofs, rfl, .inl rfl⟩
      · rw [if_neg hmore] at hr
        subst hr
        have hend : bufOfs = data.length := by omega
        exact ⟨bufOfs, hofs, rfl, .inr (by rw [hend])⟩

private theorem doWriteData_spec (socket : Socket) (data : List UInt8) :
    ∃ k ≤ data.length, (doWriteData socket data).2.wire = socket.wire ++ data.take k ∧
      ((doWriteData socket data).1 = -1 ∨ (doWriteData socket data).1 = k) :=
  doWriteLoop_spec data socket.writing socket.script socket.wire (Nat.zero_le _)
    (by rw [List.take_zero, List.append_nil, doWriteData])

private theorem doWriteData_honest : doWriteData.Honest := by
  intro socket data
  obtain ⟨k, hk, -, hret⟩ := doWriteData_spec socket data
  omega

/-- A `send` that fails after others have succeeded leaves bytes on the wire that are not
reported. -/
theorem doWriteData_records : doWriteData.Records Socket.wire := by
  intro socket data
  obtain ⟨k, hk, hwire, hret⟩ := doWriteData_spec socket data
  refine ⟨data.take k, hwire, List.take_prefix _ _, ?_⟩
  intro hpos
  rw [List.length_take]
  omega

private theorem doWriteLoop_writing (data : List UInt8) (writing : Bool) (script : List SendResult)
    (wire : List UInt8) (bufOfs : Nat) {socket : Socket} (hne : data ≠ [])
    (hr : doWriteLoop data writing script wire bufOfs = (0, socket)) : socket.writing = true := by
  have hpos : 0 < data.length := List.length_pos_of_ne_nil hne
  induction script generalizing wire bufOfs with
  | nil =>
      unfold doWriteLoop at hr
      split at hr
      · cases hr
        rfl
      · have hlen := congrArg Prod.fst hr
        simp only at hlen
        omega
  | cons result script ih =>
      unfold doWriteLoop at hr
      split at hr
      · cases result with
        | accepted n => exact ih _ _ hr
        | wouldBlock =>
            cases hr
            rfl
        | zero => cases hr
        | failed => cases hr
      · have hlen := congrArg Prod.fst hr
        simp only at hlen
        omega

theorem doWriteData_writing {socket socket' : Socket} {data : List UInt8} (hne : data ≠ [])
    (h : doWriteData socket data = (0, socket')) : socket'.writing = true :=
  doWriteLoop_writing data _ _ _ _ hne h

namespace TransLayer

theorem sendMsgToCollector_writing {t t' : TransLayer} (h : t.chunks.Sound)
    {script : List SendResult} {ret : Int} {sent : List UInt8} (hret : ret ≠ -1)
    (hsend : t.sendMsgToCollector script = some (ret, sent, t')) :
    t'.chunks.pendingBytes = [] ∨ t'.state.writing = true := by
  obtain ⟨ret', socket, chunks, hdrain, -, hdrains⟩ :=
    Chunks.drainOutWithPipe_drains doWriteData_honest ⟨script, [], t.state.writing⟩ h
  simp only [sendMsgToCollector, hdrain] at hsend
  cases hsend
  rcases hdrains.ends with hempty | ⟨socket₀, piece, hne, hans, hle⟩
  · exact .inl hempty
  · right
    obtain ⟨k, -, -, hk⟩ := doWriteData_spec socket₀ piece
    rw [← hans] at hk
    have hzero : ret = 0 := by
      rcases hk with hfail | hk
      · exact absurd hfail hret
      · simp only at hk
        omega
    rw [hzero] at hans
    exact doWriteData_writing hne hans.symm

theorem sendMsgToCollector_spec {t : TransLayer} (h : t.chunks.Sound) (script : List SendResult) :
    ∃ ret sent t', t.sendMsgToCollector script = some (ret, sent, t') ∧ t'.chunks.Sound ∧
      t'.connected = t.connected ∧ sent <+: t.chunks.pendingBytes ∧
      (ret ≠ -1 → sent ++ t'.chunks.pendingBytes = t.chunks.pendingBytes) := by
  obtain ⟨ret, socket, chunks, hdrain, hsound, hdrains⟩ :=
    Chunks.drainOutWithPipe_drains doWriteData_honest ⟨script, [], t.state.writing⟩ h
  obtain ⟨taken, hwire, hpre, hleft⟩ := hdrains.records doWriteData_records
  rw [List.nil_append] at hwire
  refine ⟨ret, socket.wire,
    { t with chunks, state := { t.state with writing := socket.writing } },
    by simp only [sendMsgToCollector, hdrain], hsound, rfl, hwire ▸ hpre, ?_⟩
  intro hret
  have hpos : 0 ≤ ret := by
    rcases hdrains.ret_eq with hzero | ⟨st, piece, hans⟩
    · omega
    · obtain ⟨k, -, -, hk⟩ := doWriteData_spec st piece
      omega
  rw [hwire]
  exact hleft hpos

theorem copyIntoSendBuffer_spec {t : TransLayer} (h : t.chunks.Sound) {span : List UInt8}
    (hlen : span.length ≤ 2 ^ 30) :
    (t.copyIntoSendBuffer span = (false, t)) ∨
      ∃ t', t.copyIntoSendBuffer span = (true, t') ∧ t'.chunks.Sound ∧
        t'.connected = t.connected ∧
        t'.chunks.pendingBytes = t.chunks.pendingBytes ++ (header span ++ span) := by
  rw [copyIntoSendBuffer]
  split
  · exact .inl rfl
  · right
    have hheader : (header span).length ≤ 2 ^ 30 := by simp [header]
    obtain ⟨-, hsound, hbytes⟩ := Chunks.copyDataIntoChunks_spec h hheader
    obtain ⟨-, hsound', hbytes'⟩ := Chunks.copyDataIntoChunks_spec hsound hlen
    exact ⟨_, rfl, hsound', rfl, by rw [hbytes', hbytes, List.append_assoc]⟩

end TransLayer

end PinpointAgent.ConnectionPool
