import PinpointAgent.Framework.Framing
import PinpointAgent.Framework.Word

/-!
# The client's receive path

`recvByteStream` reads from the socket into a buffer of `inMsgBufSize` bytes, and after every
read lets `handleMsgStream` hand the complete messages to the registered handlers; what is left
moves to the front of the buffer. The model takes the results of `recv` as a list. Nothing that
the handlers see depends on how the stream was cut into those results: the buffer always holds
what `deframe` leaves over of the bytes received so far.
-/

namespace PinpointAgent.ConnectionPool

open Framework

def inMsgBufSize : Nat := 4096

def headerSize : Nat := 8

section Receive

variable {σ : Type*}

/-- A handler gets the message type and the body; `σ` is all that the handlers share. -/
abbrev MsgHandleFunc (σ : Type*) := σ → Int → List UInt8 → Int × σ

abbrev RouterMsgMap (σ : Type*) := Int → Option (MsgHandleFunc σ)

def handleMsgLoop (msgRouteMap : RouterMsgMap σ) (buf : List UInt8) (len : Nat) :
    Nat → σ → Nat → Int × σ
  | 0, st, offset => (offset, st)
  | fuel + 1, st, offset =>
      if headerSize ≤ len - offset then
        let bodyLen := readBe32 (buf.drop (offset + 4))
        if inMsgBufSize - headerSize < bodyLen then (-1, st)
        else
          let frameSize := headerSize + bodyLen
          if len - offset < frameSize then (offset, st)
          else
            let type := toSigned 32 (readBe32 (buf.drop offset))
            match msgRouteMap type with
            | some callBack =>
                let r := callBack st type (slice buf (offset + headerSize) (offset + frameSize))
                if r.1 = -1 then (-1, r.2)
                else handleMsgLoop msgRouteMap buf len fuel r.2 (offset + frameSize)
            | none => handleMsgLoop msgRouteMap buf len fuel st (offset + frameSize)
      else (offset, st)

-- Every round of the loop consumes a header at least, so `len` rounds are enough.
def handleMsgStream (msgRouteMap : RouterMsgMap σ) (st : σ) (buf : List UInt8) (len : Nat) :
    Int × σ :=
  handleMsgLoop msgRouteMap buf len (len + 1) st 0

inductive RecvResult where
  | bytes (data : List UInt8)
  | wouldBlock
  | closed
  | failed
deriving DecidableEq, Repr

inductive RecvExit where
  | wouldBlock
  | fatal
  | closed
  | failed
  | bufferFull
deriving DecidableEq, Repr

def RecvExit.ret : RecvExit → Int
  | .wouldBlock => 0
  | _ => -1

structure Receiver (σ : Type*) where
  inBuf : List UInt8
  inBufSize : Nat
  st : σ

def Receiver.new (st : σ) : Receiver σ := ⟨List.replicate inMsgBufSize 0, 0, st⟩

/-- The body of the receive loop; `none` means that the loop goes round again. -/
def recvOnce (msgRouteMap : RouterMsgMap σ) (r : Receiver σ) :
    RecvResult → Option RecvExit × Receiver σ
  | .bytes data =>
      let buf := writeAt r.inBuf r.inBufSize data
      let total := r.inBufSize + data.length
      let handled := handleMsgStream msgRouteMap r.st buf total
      if handled.1 < 0 then (some .fatal, { r with inBuf := buf, st := handled.2 })
      else if handled.1 < total then
        let kept := total - handled.1.toNat
        -- memmove(in_buf, in_buf + msg_offset, in_buf_size_)
        (none,
          { inBuf := writeAt buf 0 (slice buf handled.1.toNat total)
            inBufSize := kept
            st := handled.2 })
      else (none, { inBuf := buf, inBufSize := 0, st := handled.2 })
  | .wouldBlock => (some .wouldBlock, r)
  | .closed => (some .closed, r)
  | .failed => (some .failed, r)

/-- One call, fed with the results of its `recv` calls; the results it did not use are returned.
No exit means that the call still waits for its next result. -/
def recvByteStream (msgRouteMap : RouterMsgMap σ) :
    Receiver σ → List RecvResult → Option RecvExit × Receiver σ × List RecvResult
  | r, results =>
      if r.inBufSize < inMsgBufSize then
        match results with
        | [] => (none, r, [])
        | result :: rest =>
            match recvOnce msgRouteMap r result with
            | (none, r') => recvByteStream msgRouteMap r' rest
            | (some exit, r') => (some exit, r', rest)
      else (some .bufferFull, r, results)

def pumpFuel (msgRouteMap : RouterMsgMap σ) :
    Nat → Receiver σ → List RecvResult → Option RecvExit × Receiver σ × List RecvResult
  | 0, r, results => (none, r, results)
  | fuel + 1, r, results =>
      match recvByteStream msgRouteMap r results with
      | (some .wouldBlock, r', rest) => pumpFuel msgRouteMap fuel r' rest
      | out => out

/-- Read events for one connection: `recvByteStream` is called again after every would-block
result, until it returns -1 or the results are used up. -/
def pump (msgRouteMap : RouterMsgMap σ) (r : Receiver σ) (results : List RecvResult) :
    Option RecvExit × Receiver σ × List RecvResult :=
  pumpFuel msgRouteMap (results.length + 1) r results

def RecvResult.Fits (room : Nat) : RecvResult → Prop
  | .bytes data => 0 < data.length ∧ data.length ≤ room
  | _ => True

/-- Every `recv` delivers between one byte and the room left in the buffer at that moment. -/
def Legal (msgRouteMap : RouterMsgMap σ) : Receiver σ → List RecvResult → Prop
  | _, [] => True
  | r, result :: rest =>
      result.Fits (inMsgBufSize - r.inBufSize) ∧
        match recvOnce msgRouteMap r result with
        | (none, r') => Legal msgRouteMap r' rest
        | (some .wouldBlock, r') => Legal msgRouteMap r' rest
        | (some _, _) => True

instance RecvResult.decidableFits (room : Nat) : (result : RecvResult) →
    Decidable (result.Fits room)
  | .bytes data => inferInstanceAs (Decidable (0 < data.length ∧ data.length ≤ room))
  | .wouldBlock | .closed | .failed => isTrue trivial

instance Legal.decidable (msgRouteMap : RouterMsgMap σ) : (r : Receiver σ) →
    (results : List RecvResult) → Decidable (Legal msgRouteMap r results)
  | _, [] => isTrue trivial
  | r, result :: rest =>
      match h : recvOnce msgRouteMap r result with
      | (none, r') | (some .wouldBlock, r') =>
          have := Legal.decidable msgRouteMap r' rest
          decidable_of_iff (result.Fits (inMsgBufSize - r.inBufSize) ∧ Legal msgRouteMap r' rest)
            (by simp [Legal, h])
      | (some .fatal, _) | (some .closed, _) | (some .failed, _) | (some .bufferFull, _) =>
          decidable_of_iff (result.Fits (inMsgBufSize - r.inBufSize)) (by simp [Legal, h])

def dispatch (msgRouteMap : RouterMsgMap σ) (st : σ) (f : Frame) : Bool × σ :=
  match msgRouteMap (toSigned 32 f.type) with
  | some callBack =>
      let r := callBack st (toSigned 32 f.type) f.body
      (decide (r.1 ≠ -1), r.2)
  | none => (true, st)

/-- The reference behaviour: the handlers fed with a whole stream. -/
def received (msgRouteMap : RouterMsgMap σ) (st : σ) (s : List UInt8) : Deframed σ :=
  deframe (inMsgBufSize - headerSize) (dispatch msgRouteMap) st s

private theorem readBe32_slice {buf : List UInt8} {lo hi : Nat} (hlo : lo + 4 ≤ hi)
    (hhi : hi ≤ buf.length) : readBe32 (slice buf lo hi) = readBe32 (buf.drop lo) := by
  rw [drop_eq_slice_append (by omega) hhi]
  exact (readBe32_append (by rw [length_slice hhi]; omega) _).symm

private theorem handleMsgLoop_frame (msgRouteMap : RouterMsgMap σ) {buf : List UInt8}
    {len offset : Nat} (fuel : Nat) (st : σ) {f : Frame} (h8 : headerSize ≤ len - offset)
    (hle : ¬inMsgBufSize - headerSize < readBe32 (buf.drop (offset + 4)))
    (hfull : ¬len - offset < headerSize + readBe32 (buf.drop (offset + 4)))
    (htype : f.type = readBe32 (buf.drop offset))
    (hbody : f.body =
      slice buf (offset + headerSize) (offset + (headerSize + readBe32 (buf.drop (offset + 4))))) :
    handleMsgLoop msgRouteMap buf len (fuel + 1) st offset =
      if (dispatch msgRouteMap st f).1 then
        handleMsgLoop msgRouteMap buf len fuel (dispatch msgRouteMap st f).2
          (offset + (headerSize + readBe32 (buf.drop (offset + 4))))
      else (-1, (dispatch msgRouteMap st f).2) := by
  rw [handleMsgLoop, dispatch]
  simp only [h8, hle, hfull, if_true, if_false, ← htype, ← hbody]
  cases msgRouteMap (toSigned 32 f.type) with
  | none => rfl
  | some callBack =>
      by_cases hret : (callBack st (toSigned 32 f.type) f.body).1 = -1
      · simp [hret]
      · simp [hret]

/-- The offset loop is `deframe` on the part of the buffer it has not looked at. -/
theorem handleMsgLoop_eq (msgRouteMap : RouterMsgMap σ) {buf : List UInt8} {len : Nat}
    (hlen : len ≤ buf.length) (fuel : Nat) (st : σ) {offset : Nat} (hofs : offset ≤ len)
    (hfuel : len - offset < fuel) :
    handleMsgLoop msgRouteMap buf len fuel st offset =
      (if (received msgRouteMap st (slice buf offset len)).pass = .starved then
          ((len - (received msgRouteMap st (slice buf offset len)).rest.length : Nat) : Int)
        else -1,
        (received msgRouteMap st (slice buf offset len)).state) := by
  induction fuel generalizing st offset with
  | zero => omega
  | succ fuel ih =>
      have hsize : (slice buf offset len).length = len - offset := length_slice hlen
      by_cases h8 : headerSize ≤ len - offset
      · have hword : readBe32 ((slice buf offset len).drop 4) = readBe32 (buf.drop (offset + 4)) := by
          rw [slice_drop]
          exact readBe32_slice (by unfold headerSize at h8; omega) hlen
        by_cases hbig : inMsgBufSize - headerSize < readBe32 (buf.drop (offset + 4))
        · have hscan := scanFrame_of_oversized (hsize ▸ h8) (hword ▸ hbig)
          rw [received, deframe_oversized hscan, handleMsgLoop, if_pos h8]
          simp [hbig]
        · have hle : readBe32 ((slice buf offset len).drop 4) ≤ inMsgBufSize - headerSize := by
            omega
          by_cases hshort : len - offset < headerSize + readBe32 (buf.drop (offset + 4))
          · have hscan := scanFrame_of_lt_body (hsize ▸ h8) hle (by
              rw [hsize, hword]
              exact hshort)
            rw [received, deframe_incomplete hscan, handleMsgLoop, if_pos h8]
            simp only [hbig, if_false, hshort, if_true, hsize]
            congr
            omega
          · obtain ⟨f, hscan, htype, hbody⟩ := scanFrame_of_full (hsize ▸ h8) hle (by
              rw [hsize, hword]
              exact Nat.le_of_not_lt hshort)
            rw [hword, slice_drop] at hscan
            rw [readBe32_slice (by unfold headerSize at h8; omega) hlen] at htype
            rw [hword, slice_drop, slice_take (by unfold headerSize at hshort; omega),
              Nat.add_assoc] at hbody
            rw [handleMsgLoop_frame msgRouteMap fuel st h8 hbig hshort htype hbody]
            have hofs' : offset + (headerSize + readBe32 (buf.drop (offset + 4))) ≤ len := by omega
            have hless : len - (offset + (headerSize + readBe32 (buf.drop (offset + 4)))) < fuel := by
              unfold headerSize at h8 ⊢
              omega
            have hnext := ih (dispatch msgRouteMap st f).2 hofs' hless
            cases hgo : (dispatch msgRouteMap st f).1 with
            | true =>
                rw [received, deframe_frame hscan hgo, if_pos rfl]
                exact hnext
            | false =>
                rw [received, deframe_stop hscan hgo]
                simp
      · have hscan : scanFrame (inMsgBufSize - headerSize) (slice buf offset len) = .incomplete :=
          scanFrame_of_lt_header (by unfold headerSize at h8; omega)
        rw [received, deframe_incomplete hscan, handleMsgLoop, if_neg h8]
        simp only [hsize, if_true]
        congr
        omega

section Stream

variable (msgRouteMap : RouterMsgMap σ)

/-- The receive buffer between two reads, when `s` is all that has come in so far. -/
structure Synced (st₀ : σ) (s : List UInt8) (r : Receiver σ) : Prop where
  buf_length : r.inBuf.length = inMsgBufSize
  starved : (received msgRouteMap st₀ s).pass = .starved
  kept : slice r.inBuf 0 r.inBufSize = (received msgRouteMap st₀ s).rest
  size : r.inBufSize = (received msgRouteMap st₀ s).rest.length
  state : r.st = (received msgRouteMap st₀ s).state

variable {msgRouteMap}

/-- A frame of the largest accepted size fills the buffer exactly, so an unfinished one leaves
room for a byte. -/
theorem Synced.size_lt {st₀ : σ} {s : List UInt8} {r : Receiver σ}
    (h : Synced msgRouteMap st₀ s r) : r.inBufSize < inMsgBufSize := by
  have hlt := length_lt_of_incomplete (scanFrame_deframe_rest h.starved)
  rw [h.size]
  exact hlt

variable (msgRouteMap) in
theorem synced_new (st₀ : σ) : Synced msgRouteMap st₀ [] (Receiver.new st₀) := by
  have hscan : scanFrame (inMsgBufSize - headerSize) [] = .incomplete :=
    scanFrame_of_lt_header (by decide)
  have hstart : received msgRouteMap st₀ [] = ⟨st₀, [], .starved⟩ := deframe_incomplete hscan
  exact ⟨by simp [Receiver.new], by rw [hstart], by simp [hstart, Receiver.new],
    by simp [hstart, Receiver.new], by simp [hstart, Receiver.new]⟩

private theorem handleMsgStream_synced {st₀ : σ} {s data : List UInt8} {r : Receiver σ}
    (h : Synced msgRouteMap st₀ s r) (hfit : r.inBufSize + data.length ≤ inMsgBufSize)
    {d : Deframed σ} (hd : received msgRouteMap st₀ (s ++ data) = d) {buf : List UInt8}
    (hbuf : writeAt r.inBuf r.inBufSize data = buf) {total : Nat}
    (htotal : r.inBufSize + data.length = total) :
    buf.length = inMsgBufSize ∧
      handleMsgStream msgRouteMap r.st buf total =
        (if d.pass = .starved then ((total - d.rest.length : Nat) : Int) else -1, d.state) ∧
      slice buf (total - d.rest.length) total = d.rest ∧ d.rest.length ≤ total := by
  have hroom : r.inBufSize ≤ r.inBuf.length := by
    rw [h.buf_length]
    omega
  have hlen : buf.length = inMsgBufSize := by
    rw [← hbuf, length_writeAt (by rw [h.buf_length]; exact hfit), h.buf_length]
  have htotalLe : total ≤ buf.length := by omega
  have hwhole : received msgRouteMap r.st (slice buf 0 total) = d := by
    rw [← hbuf, ← htotal, slice_writeAt (Nat.zero_le _) hroom, h.kept, h.state, ← hd]
    exact (deframe_append h.starved data).symm
  have hsuffix : d.rest <:+ slice buf 0 total := by
    rw [← hwhole]
    exact deframe_rest_suffix _ _
  have hle := hsuffix.length_le
  rw [length_slice htotalLe, Nat.sub_zero] at hle
  refine ⟨hlen, ?_, slice_of_suffix htotalLe hsuffix, hle⟩
  rw [handleMsgStream, handleMsgLoop_eq msgRouteMap htotalLe (total + 1) r.st (Nat.zero_le _)
    (by omega), hwhole]

/-- What one non-empty `recv` does: the receiver is in step with the longer stream, or the stop
point has just been read. -/
theorem recvOnce_bytes {st₀ : σ} {s data : List UInt8} {r : Receiver σ}
    (h : Synced msgRouteMap st₀ s r) (hfit : r.inBufSize + data.length ≤ inMsgBufSize) :
    (∃ r', recvOnce msgRouteMap r (.bytes data) = (none, r') ∧
        Synced msgRouteMap st₀ (s ++ data) r') ∨
      ((received msgRouteMap st₀ (s ++ data)).pass ≠ .starved ∧
        ∃ r', recvOnce msgRouteMap r (.bytes data) = (some .fatal, r') ∧
          r'.st = (received msgRouteMap st₀ (s ++ data)).state) := by
  obtain ⟨hlen, hhandled, htail, hle⟩ := handleMsgStream_synced h hfit rfl rfl rfl
  simp only [recvOnce, hhandled]
  by_cases hpass : (received msgRouteMap st₀ (s ++ data)).pass = .starved
  · left
    simp only [hpass, if_true, Int.toNat_natCast]
    rw [if_neg (by omega)]
    by_cases hrest : (received msgRouteMap st₀ (s ++ data)).rest = []
    · rw [if_neg (by simp [hrest])]
      exact ⟨_, rfl, hlen, hpass, by simp [hrest], by simp [hrest], rfl⟩
    · have hpos := List.length_pos_iff.mpr hrest
      rw [if_pos (by omega)]
      have hsize : r.inBufSize + data.length -
          (r.inBufSize + data.length - (received msgRouteMap st₀ (s ++ data)).rest.length) =
            (received msgRouteMap st₀ (s ++ data)).rest.length := by omega
      refine ⟨_, rfl, ?_, hpass, ?_, hsize, rfl⟩
      · rw [htail, length_writeAt (by omega), hlen]
      · rw [htail, hsize]
        exact slice_writeAt_zero _ _
  · right
    simp only [hpass, if_false]
    exact ⟨hpass, _, rfl, rfl⟩

end Stream

/-! ## Whole connections -/

def RecvResult.data : RecvResult → List UInt8
  | .bytes data => data
  | _ => []

def streamOf (results : List RecvResult) : List UInt8 := results.flatMap RecvResult.data

/-- Neither the peer closed the connection nor a `recv` failed. -/
def Quiet (results : List RecvResult) : Prop := .closed ∉ results ∧ .failed ∉ results

/-- How the calls of `recvByteStream` can stand after the results `seen`, when `s` had come in
before them and `rest` is still to come. -/
inductive Outcome (msgRouteMap : RouterMsgMap σ) (st₀ : σ) (s : List UInt8) :
    Option RecvExit → Receiver σ → List RecvResult → List RecvResult → Prop
  | waiting {r seen} (synced : Synced msgRouteMap st₀ (s ++ streamOf seen) r)
      (quiet : Quiet seen) : Outcome msgRouteMap st₀ s none r seen []
  | wouldBlock {r seen rest} (synced : Synced msgRouteMap st₀ (s ++ streamOf seen) r)
      (quiet : Quiet seen) (legal : Legal msgRouteMap r rest) (progress : seen ≠ []) :
      Outcome msgRouteMap st₀ s (some .wouldBlock) r seen rest
  | fatal {r seen rest} (stop : (received msgRouteMap st₀ (s ++ streamOf seen)).pass ≠ .starved)
      (state : r.st = (received msgRouteMap st₀ (s ++ streamOf seen)).state)
      (quiet : Quiet seen) : Outcome msgRouteMap st₀ s (some .fatal) r seen rest
  | closed {r seen rest} (synced : Synced msgRouteMap st₀ (s ++ streamOf seen) r)
      (last : .closed ∈ seen) : Outcome msgRouteMap st₀ s (some .closed) r seen rest
  | failed {r seen rest} (synced : Synced msgRouteMap st₀ (s ++ streamOf seen) r)
      (last : .failed ∈ seen) : Outcome msgRouteMap st₀ s (some .failed) r seen rest

section Runs

variable {msgRouteMap : RouterMsgMap σ} {st₀ : σ}

theorem streamOf_append (a b : List RecvResult) : streamOf (a ++ b) = streamOf a ++ streamOf b := by
  simp [streamOf]

private theorem Quiet.append {a b : List RecvResult} (ha : Quiet a) (hb : Quiet b) : Quiet (a ++ b) := by
  simp only [Quiet, List.mem_append, not_or] at *
  exact ⟨⟨ha.1, hb.1⟩, ha.2, hb.2⟩

private theorem Outcome.after {s : List UInt8} {exit : Option RecvExit} {r : Receiver σ}
    {a seen rest : List RecvResult} (hquiet : Quiet a)
    (h : Outcome msgRouteMap st₀ (s ++ streamOf a) exit r seen rest) :
    Outcome msgRouteMap st₀ s exit r (a ++ seen) rest := by
  have happ : s ++ streamOf (a ++ seen) = s ++ streamOf a ++ streamOf seen := by
    rw [streamOf_append, List.append_assoc]
  cases h with
  | waiting synced quiet => exact .waiting (happ ▸ synced) (hquiet.append quiet)
  | wouldBlock synced quiet legal progress =>
      exact .wouldBlock (happ ▸ synced) (hquiet.append quiet) legal (by simp [progress])
  | fatal stop state quiet => exact .fatal (happ ▸ stop) (happ ▸ state) (hquiet.append quiet)
  | closed synced last => exact .closed (happ ▸ synced) (List.mem_append_right _ last)
  | failed synced last => exact .failed (happ ▸ synced) (List.mem_append_right _ last)

theorem Outcome.state_eq {s : List UInt8} {exit : Option RecvExit} {r : Receiver σ}
    {seen rest : List RecvResult} (h : Outcome msgRouteMap st₀ s exit r seen rest) :
    r.st = (received msgRouteMap st₀ (s ++ streamOf seen)).state := by
  cases h with
  | waiting synced quiet => exact synced.state
  | wouldBlock synced quiet legal progress => exact synced.state
  | fatal stop state quiet => exact state
  | closed synced last => exact synced.state
  | failed synced last => exact synced.state

private theorem Outcome.fails_iff {s : List UInt8} {exit : Option RecvExit} {r : Receiver σ}
    {seen rest : List RecvResult} (h : Outcome msgRouteMap st₀ s exit r seen rest) :
    (∃ e, exit = some e ∧ e.ret = -1) ↔
      (received msgRouteMap st₀ (s ++ streamOf seen)).pass ≠ .starved ∨ .closed ∈ seen ∨
        .failed ∈ seen := by
  cases h with
  | waiting synced quiet => simp [synced.starved, quiet.1, quiet.2]
  | wouldBlock synced quiet legal progress =>
      simp [synced.starved, quiet.1, quiet.2, RecvExit.ret]
  | fatal stop state quiet => simp [stop, RecvExit.ret]
  | closed synced last => simp [last, RecvExit.ret]
  | failed synced last => simp [last, RecvExit.ret]

private theorem recvByteStream_outcome {s : List UInt8} {r : Receiver σ}
    (h : Synced msgRouteMap st₀ s r) {results : List RecvResult}
    (hlegal : Legal msgRouteMap r results) :
    ∃ exit r' seen rest, recvByteStream msgRouteMap r results = (exit, r', rest) ∧
      results = seen ++ rest ∧ Outcome msgRouteMap st₀ s exit r' seen rest := by
  induction results generalizing s r with
  | nil =>
      rw [recvByteStream, if_pos h.size_lt]
      exact ⟨none, r, [], [], rfl, rfl, .waiting (by simpa [streamOf] using h) (by simp [Quiet])⟩
  | cons result results ih =>
      obtain ⟨hfit, hnext⟩ := hlegal
      have hroom := h.size_lt
      rw [recvByteStream, if_pos hroom]
      cases result with
      | bytes data =>
          have hquiet : Quiet [.bytes data] := by simp [Quiet]
          have hstream : s ++ data = s ++ streamOf [.bytes data] := by
            simp [streamOf, RecvResult.data]
          have hfit' : r.inBufSize + data.length ≤ inMsgBufSize := by
            have := hfit.2
            omega
          rcases recvOnce_bytes h hfit' with ⟨r', honce, hsynced⟩ | ⟨hstop, r', honce, hstate⟩
          · rw [honce] at hnext
            obtain ⟨exit, r'', seen, rest, hrun, rfl, hout⟩ := ih hsynced hnext
            simp only [honce]
            exact ⟨exit, r'', .bytes data :: seen, rest, hrun, rfl, (hstream ▸ hout).after hquiet⟩
          · simp only [honce]
            exact ⟨_, r', [.bytes data], results, rfl, rfl,
              .fatal (hstream ▸ hstop) (hstream ▸ hstate) hquiet⟩
      | wouldBlock =>
          exact ⟨_, r, [.wouldBlock], results, rfl, rfl,
            .wouldBlock (by simpa [streamOf, RecvResult.data] using h) (by simp [Quiet]) hnext
              (by simp)⟩
      | closed =>
          exact ⟨_, r, [.closed], results, rfl, rfl,
            .closed (by simpa [streamOf, RecvResult.data] using h) (by simp)⟩
      | failed =>
          exact ⟨_, r, [.failed], results, rfl, rfl,
            .failed (by simpa [streamOf, RecvResult.data] using h) (by simp)⟩

theorem pumpFuel_outcome (fuel : Nat) {s : List UInt8} {r : Receiver σ}
    (h : Synced msgRouteMap st₀ s r) {results : List RecvResult}
    (hlegal : Legal msgRouteMap r results) (hfuel : results.length < fuel) :
    ∃ exit r' seen rest, pumpFuel msgRouteMap fuel r results = (exit, r', rest) ∧
      results = seen ++ rest ∧ Outcome msgRouteMap st₀ s exit r' seen rest ∧
      exit ≠ some .wouldBlock := by
  induction fuel generalizing s r results with
  | zero => omega
  | succ fuel ih =>
      obtain ⟨exit, r₁, seen, rest, hcall, rfl, hout⟩ := recvByteStream_outcome h hlegal
      cases hout with
      | wouldBlock synced quiet legal progress =>
          have hpos := List.length_pos_iff.mpr progress
          rw [List.length_append] at hfuel
          obtain ⟨exit, r', seen', rest', hrun, rfl, hout, hne⟩ := ih synced legal (by omega)
          refine ⟨exit, r', seen ++ seen', rest', ?_, by simp, hout.after quiet, hne⟩
          simp only [pumpFuel, hcall, hrun]
      | waiting synced quiet =>
          exact ⟨none, r₁, seen, [], by simp only [pumpFuel, hcall], rfl, .waiting synced quiet,
            by simp⟩
      | fatal stop state quiet =>
          exact ⟨_, r₁, seen, rest, by simp only [pumpFuel, hcall], rfl, .fatal stop state quiet,
            by simp⟩
      | closed synced last =>
          exact ⟨_, r₁, seen, rest, by simp only [pumpFuel, hcall], rfl, .closed synced last,
            by simp⟩
      | failed synced last =>
          exact ⟨_, r₁, seen, rest, by simp only [pumpFuel, hcall], rfl, .failed synced last,
            by simp⟩

private theorem Legal.of_append {r : Receiver σ} {before after : List RecvResult}
    (h : Legal msgRouteMap r (before ++ after)) : Legal msgRouteMap r before := by
  induction before generalizing r with
  | nil => trivial
  | cons result before ih =>
      obtain ⟨hfit, hnext⟩ := h
      refine ⟨hfit, ?_⟩
      split at hnext
      · exact ih hnext
      · exact ih hnext
      · trivial

end Runs

/-! ## What the handlers are given -/

def record (msgRouteMap : RouterMsgMap σ) : RouterMsgMap (σ × List (Int × List UInt8)) :=
  fun type => (msgRouteMap type).map fun callBack st type' body =>
    let r := callBack st.1 type' body
    (r.1, r.2, st.2 ++ [(type', body)])

def handlerCalls (msgRouteMap : RouterMsgMap σ) : σ → List Frame → List (Int × List UInt8) × Bool
  | _, [] => ([], false)
  | st, f :: fs =>
      match msgRouteMap (toSigned 32 f.type) with
      | none => handlerCalls msgRouteMap st fs
      | some callBack =>
          let r := callBack st (toSigned 32 f.type) f.body
          if r.1 = -1 then ([(toSigned 32 f.type, f.body)], true)
          else
            let later := handlerCalls msgRouteMap r.2 fs
            ((toSigned 32 f.type, f.body) :: later.1, later.2)

def streamCalls (msgRouteMap : RouterMsgMap σ) (st : σ) (s : List UInt8) :
    List (Int × List UInt8) :=
  (handlerCalls msgRouteMap st (parseFrames (inMsgBufSize - headerSize) s).state).1

/-- The stream holds a header with a length above 4088, or a handler has returned -1. -/
def StopPoint (msgRouteMap : RouterMsgMap σ) (st : σ) (s : List UInt8) : Prop :=
  (handlerCalls msgRouteMap st (parseFrames (inMsgBufSize - headerSize) s).state).2 = true ∨
    (parseFrames (inMsgBufSize - headerSize) s).pass = .oversized

section Calls

variable (msgRouteMap : RouterMsgMap σ)

private def calledFor (f : Frame) : List (Int × List UInt8) :=
  if (msgRouteMap (toSigned 32 f.type)).isSome then [(toSigned 32 f.type, f.body)] else []

private theorem dispatch_record (st : σ) (log : List (Int × List UInt8)) (f : Frame) :
    dispatch (record msgRouteMap) (st, log) f =
      ((dispatch msgRouteMap st f).1, (dispatch msgRouteMap st f).2,
        log ++ calledFor msgRouteMap f) := by
  unfold dispatch record calledFor
  cases msgRouteMap (toSigned 32 f.type) with
  | none => simp
  | some callBack => rfl

private theorem handlerCalls_cons (st : σ) (f : Frame) (fs : List Frame) :
    handlerCalls msgRouteMap st (f :: fs) =
      if (dispatch msgRouteMap st f).1 then
        (calledFor msgRouteMap f ++ (handlerCalls msgRouteMap (dispatch msgRouteMap st f).2 fs).1,
          (handlerCalls msgRouteMap (dispatch msgRouteMap st f).2 fs).2)
      else (calledFor msgRouteMap f, true) := by
  rw [handlerCalls, dispatch, calledFor]
  cases msgRouteMap (toSigned 32 f.type) with
  | none => simp
  | some callBack =>
      by_cases hret : (callBack st (toSigned 32 f.type) f.body).1 = -1
      · simp [hret]
      · simp [hret]

private theorem received_record (e : σ × List (Int × List UInt8)) (s : List UInt8) :
    (received (record msgRouteMap) e s).state.2 = e.2 ++ streamCalls msgRouteMap e.1 s ∧
      ((received (record msgRouteMap) e s).pass ≠ .starved ↔ StopPoint msgRouteMap e.1 s) := by
  unfold received streamCalls StopPoint
  induction e, s using deframe_induct (inMsgBufSize - headerSize) (dispatch (record msgRouteMap))
    with
  | incomplete e s hscan =>
      simp [deframe_incomplete hscan, parseFrames_incomplete hscan, handlerCalls]
  | oversized e s hscan =>
      simp [deframe_oversized hscan, parseFrames_oversized hscan, handlerCalls]
  | stop e s f rest hscan hstop =>
      have hstop' := hstop
      rw [dispatch_record] at hstop'
      rw [deframe_stop hscan hstop, parseFrames_frame hscan, dispatch_record, handlerCalls_cons]
      simp only at hstop' ⊢
      simp [hstop']
  | frame e s f rest hscan hgo ih =>
      have hgo' := hgo
      rw [dispatch_record] at hgo' ih
      rw [deframe_frame hscan hgo, parseFrames_frame hscan, dispatch_record, handlerCalls_cons]
      simp only at hgo' ih ⊢
      simp only [hgo', if_true]
      rw [ih.1, ih.2, List.append_assoc]
      exact ⟨rfl, Iff.rfl⟩

private theorem streamCalls_append_of_stop {st : σ} {s : List UInt8} (h : StopPoint msgRouteMap st s)
    (more : List UInt8) :
    streamCalls msgRouteMap st (s ++ more) = streamCalls msgRouteMap st s := by
  have hended := (received_record msgRouteMap (st, []) s).2.mpr h
  have hcalls := (received_record msgRouteMap (st, []) (s ++ more)).1
  rw [received, deframe_append_of_ended hended] at hcalls
  exact (hcalls.symm.trans (received_record msgRouteMap (st, []) s).1)

end Calls

/-- For every way the collector's stream is cut into `recv` results, the handlers are called with
the messages of the stream parsed as a whole, up to the stop point. `recvByteStream` returns -1
exactly when that point has been received, the peer closed or `recv` failed, and no `recv` is
made with a full buffer. -/
theorem recvByteStream_segmentation (msgRouteMap : RouterMsgMap σ) (st : σ)
    {results : List RecvResult}
    (hlegal : Legal (record msgRouteMap) (Receiver.new (st, [])) results) :
    (∃ exit r seen rest,
      pump (record msgRouteMap) (Receiver.new (st, [])) results = (exit, r, rest) ∧
      results = seen ++ rest ∧ (exit = none → rest = []) ∧
      r.st.2 = streamCalls msgRouteMap st (streamOf seen) ∧
      (StopPoint msgRouteMap st (streamOf seen) →
        ∀ more, streamCalls msgRouteMap st (streamOf seen ++ more) = r.st.2) ∧
      ((∃ e, exit = some e ∧ e.ret = -1) ↔
        StopPoint msgRouteMap st (streamOf seen) ∨ .closed ∈ seen ∨ .failed ∈ seen) ∧
      exit ≠ some .wouldBlock ∧ exit ≠ some .bufferFull) ∧
    ∀ before after r, results = before ++ after →
      pump (record msgRouteMap) (Receiver.new (st, [])) before = (none, r, []) →
      r.inBufSize ≤ 4095 := by
  have hstart := synced_new (record msgRouteMap) (st, [])
  constructor
  · obtain ⟨exit, r, seen, rest, hrun, hsplit, hout, hne⟩ :=
      pumpFuel_outcome (results.length + 1) hstart hlegal (Nat.lt_succ_self _)
    obtain ⟨hlog, hstop⟩ := received_record msgRouteMap (st, []) (streamOf seen)
    have hstate := hout.state_eq
    have hfails := hout.fails_iff
    rw [List.nil_append] at hstate hfails hlog
    rw [← hstate] at hlog
    rw [hstop] at hfails
    refine ⟨exit, r, seen, rest, hrun, hsplit, ?_, hlog, ?_, hfails, hne, ?_⟩
    · intro hnone
      subst hnone
      cases hout with
      | waiting synced quiet => rfl
    · intro hend more
      rw [hlog]
      exact streamCalls_append_of_stop msgRouteMap hend more
    · intro hfull
      subst hfull
      cases hout
  · intro before after r hsplit hrun
    subst hsplit
    obtain ⟨exit, r', seen, rest, hrun', -, hout, -⟩ :=
      pumpFuel_outcome (before.length + 1) hstart hlegal.of_append (Nat.lt_succ_self _)
    rw [pump, hrun'] at hrun
    cases hrun
    cases hout with
    | waiting synced quiet => exact Nat.le_of_lt_succ synced.size_lt

/-- A message of type 1 cut inside its header and a second one of an unregistered type, with a
handler that refuses the third. -/
theorem recvByteStream_segmentation_fragmented :
    Legal (record fun type => if type = 1 then some fun st _ _ => (-st, st + 1) else none)
        (Receiver.new ((0 : Int), []))
        [.bytes [0, 0, 0, 1, 0, 0], .wouldBlock, .bytes [0, 1, 65, 0, 0, 0, 2, 0, 0, 0, 0, 0],
          .bytes [0, 0, 1, 0, 0, 0, 0], .closed] ∧
      (∃ exit r seen rest,
        pump (record fun type => if type = 1 then some fun st _ _ => (-st, st + 1) else none)
            (Receiver.new ((0 : Int), []))
            [.bytes [0, 0, 0, 1, 0, 0], .wouldBlock, .bytes [0, 1, 65, 0, 0, 0, 2, 0, 0, 0, 0, 0],
              .bytes [0, 0, 1, 0, 0, 0, 0], .closed] = (exit, r, rest) ∧
          r.st.2 = streamCalls
            (fun type => if type = 1 then some fun st _ _ => (-st, st + 1) else none) (0 : Int)
            (streamOf seen)) := by
  have hlegal : Legal
      (record fun type => if type = 1 then some fun st _ _ => (-st, st + 1) else none)
      (Receiver.new ((0 : Int), []))
      [.bytes [0, 0, 0, 1, 0, 0], .wouldBlock, .bytes [0, 1, 65, 0, 0, 0, 2, 0, 0, 0, 0, 0],
        .bytes [0, 0, 1, 0, 0, 0, 0], .closed] := by
    decide +kernel
  obtain ⟨⟨exit, r, seen, rest, hrun, -, -, hlog, -⟩, -⟩ := recvByteStream_segmentation _ _ hlegal
  exact ⟨hlegal, exit, r, seen, rest, hrun, hlog⟩

/-! ## From one call to the next -/

structure Receiver.Tidy (r : Receiver σ) : Prop where
  buf_length : r.inBuf.length = inMsgBufSize
  size_le : r.inBufSize ≤ inMsgBufSize
  unfinished : scanFrame (inMsgBufSize - headerSize) (slice r.inBuf 0 r.inBufSize) = .incomplete

section Tidy

variable {msgRouteMap : RouterMsgMap σ} {r : Receiver σ} {results : List RecvResult}

private theorem Receiver.Tidy.synced (h : r.Tidy) :
    Synced msgRouteMap r.st (slice r.inBuf 0 r.inBufSize) r := by
  have hkept : received msgRouteMap r.st (slice r.inBuf 0 r.inBufSize) =
      ⟨r.st, slice r.inBuf 0 r.inBufSize, .starved⟩ := deframe_incomplete h.unfinished
  refine ⟨h.buf_length, by rw [hkept], by rw [hkept], ?_, by rw [hkept]⟩
  rw [hkept, length_slice (h.buf_length ▸ h.size_le), Nat.sub_zero]

theorem Synced.tidy {st₀ : σ} {s : List UInt8} (h : Synced msgRouteMap st₀ s r) : r.Tidy :=
  ⟨h.buf_length, h.size_lt.le, by rw [h.kept]; exact scanFrame_deframe_rest h.starved⟩

theorem Receiver.tidy_reset (h : r.inBuf.length = inMsgBufSize) :
    Receiver.Tidy { r with inBufSize := 0 } :=
  ⟨h, Nat.zero_le _, scanFrame_of_lt_header (by simp [slice])⟩

private theorem recvOnce_length (h : r.inBuf.length = inMsgBufSize) {result : RecvResult}
    (hfit : result.Fits (inMsgBufSize - r.inBufSize)) (hroom : r.inBufSize < inMsgBufSize) :
    (recvOnce msgRouteMap r result).2.inBuf.length = inMsgBufSize := by
  cases result with
  | bytes data =>
    have hbuf : (writeAt r.inBuf r.inBufSize data).length = inMsgBufSize := by
      rw [length_writeAt (by have := hfit.2; omega), h]
    have htotal : r.inBufSize + data.length ≤ inMsgBufSize := by
      have := hfit.2
      omega
    unfold recvOnce
    dsimp only
    split
    · exact hbuf
    · split
      · change (writeAt _ 0 _).length = _
        rw [length_writeAt, hbuf]
        rw [length_slice (by omega), hbuf]
        omega
      · exact hbuf
  | wouldBlock => exact h
  | closed => exact h
  | failed => exact h

theorem recvByteStream_length (h : r.inBuf.length = inMsgBufSize)
    (hlegal : Legal msgRouteMap r results) :
    (recvByteStream msgRouteMap r results).2.1.inBuf.length = inMsgBufSize := by
  induction results generalizing r with
  | nil =>
    unfold recvByteStream
    split <;> exact h
  | cons result results ih =>
    unfold recvByteStream
    split
    · next hroom =>
      obtain ⟨hfit, hnext⟩ := hlegal
      have honce : (recvOnce msgRouteMap r result).2.inBuf.length = inMsgBufSize :=
        recvOnce_length h hfit hroom
      cases hcase : recvOnce msgRouteMap r result with
      | mk exit r' =>
        rw [hcase] at honce hnext
        simp only [hcase]
        cases exit with
        | none => exact ih honce hnext
        | some exit => exact honce
    · exact h

theorem recvByteStream_invariant {P : σ → Prop} (h : r.Tidy) (hlegal : Legal msgRouteMap r results)
    (hst : P r.st)
    (hframe : ∀ f ∈ (parseFrames (inMsgBufSize - headerSize)
      (slice r.inBuf 0 r.inBufSize ++ streamOf results)).state,
      ∀ st, P st → P (dispatch msgRouteMap st f).2) :
    P (recvByteStream msgRouteMap r results).2.1.st ∧
      ((recvByteStream msgRouteMap r results).1.elim 0 RecvExit.ret ≠ -1 →
        (recvByteStream msgRouteMap r results).2.1.Tidy) := by
  obtain ⟨exit, r', seen, rest, hrun, rfl, hout⟩ := recvByteStream_outcome h.synced hlegal
  rw [hrun]
  constructor
  · rw [hout.state_eq]
    refine deframe_invariant hst fun f hf => hframe f ?_
    rw [streamOf_append, ← List.append_assoc]
    exact (prefix_parseFrames _ _).subset hf
  · intro hret
    cases hout with
    | waiting synced quiet => exact synced.tidy
    | wouldBlock synced quiet legal progress => exact synced.tidy
    | fatal stop state quiet => exact absurd rfl hret
    | closed synced last => exact absurd rfl hret
    | failed synced last => exact absurd rfl hret

end Tidy

end Receive

end PinpointAgent.ConnectionPool
