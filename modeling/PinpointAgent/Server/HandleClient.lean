import PinpointAgent.Framework.Framing
import PinpointAgent.Framework.Word

/-!
# The collector agent's packet reader

`handleClient` reads from a connection into one buffer of `RecvBufSize` bytes; `matchFullPacket`
looks for a whole packet at `packetOffset`, working in `int32`. The loop behind the label
`ParseAgain` runs until no whole packet is left, and moves the unparsed rest to the front of the
buffer when there is no room for what it still needs.

The results here hold for every buffer size: whatever the arithmetic does, a packet that reaches
`parsePacket` is the next one of the stream (`handleClient_sound`).
-/

namespace PinpointAgent.Server

open Framework

def clientHeaderSize : Int := 8

/-- What `parsePacket` is called with. -/
structure Packet where
  packetLen : Nat
  packetType : Nat
  body : List UInt8
deriving DecidableEq, Repr

def Packet.ofFrame (f : Frame) : Packet := ⟨f.body.length, f.type, f.body⟩

/-- The slice expression `buffer[lo:hi]`; `none` is the run-time panic. -/
def sliceExpr (buffer : List UInt8) (lo hi : Int) : Option (List UInt8) :=
  if 0 ≤ lo ∧ lo ≤ hi ∧ hi ≤ buffer.length then some (slice buffer lo.toNat hi.toNat) else none

def parseHeader (buffer : List UInt8) : Nat × Nat :=
  (readBe32 (buffer.drop 4), readBe32 buffer)

structure Matched where
  token : Int
  needs : Int
  packetLen : Int := 0
  packetType : Int := 0
  body : List UInt8 := []
deriving DecidableEq, Repr

def matchFullPacket (recvBufSize : Nat) (buffer : List UInt8) (start total : Int) :
    Option Matched :=
  if total < clientHeaderSize then
    some { token := 0, needs := toSigned 32 (clientHeaderSize - total) }
  else
    (sliceExpr buffer start (toSigned 32 (start + total))).bind fun head =>
      let bodyLen := (parseHeader head).1
      if toUnsigned 32 recvBufSize < bodyLen then some { token := 0, needs := 0 }
      else if total < toSigned 32 (wordAdd 32 bodyLen 8) then
        some { token := 0, needs := toSigned 32 (toSigned 32 bodyLen + clientHeaderSize - total) }
      else
        (sliceExpr buffer (toSigned 32 (start + clientHeaderSize))
          (toSigned 32 (start + clientHeaderSize + toSigned 32 bodyLen))).map fun body =>
            { token := toSigned 32 (toSigned 32 bodyLen + clientHeaderSize)
              needs := 0
              packetLen := toSigned 32 bodyLen
              packetType := toSigned 32 (parseHeader head).2
              body }

/-- How `handleClient` leaves its loop. -/
inductive ClientExit where
  | readError
  | closed
  | oversized
  | overflow
  | parseError
  | panicked
deriving DecidableEq, Repr

/-- The loop's variables, and the packets handed to `parsePacket` so far. -/
structure Client where
  clientInBuf : List UInt8
  inOffset : Nat
  packetOffset : Nat
  handed : List Packet
deriving DecidableEq, Repr

namespace Client

def new (recvBufSize : Nat) : Client := ⟨List.replicate recvBufSize 0, 0, 0, []⟩

def unparsed (c : Client) : List UInt8 := slice c.clientInBuf c.packetOffset c.inOffset

def matchPacket (c : Client) (recvBufSize : Nat) : Option Matched :=
  matchFullPacket recvBufSize c.clientInBuf (toSigned 32 c.packetOffset)
    (toSigned 32 ((c.inOffset : Int) - c.packetOffset))

def compact (c : Client) : Client :=
  { c with
    clientInBuf := writeAt c.clientInBuf 0 (slice c.clientInBuf c.packetOffset c.inOffset)
    inOffset := c.inOffset - c.packetOffset
    packetOffset := 0 }

def hand (c : Client) (m : Matched) : Client :=
  { c with
    packetOffset := (c.packetOffset + m.token).toNat
    handed := c.handed ++
      [⟨(m.packetLen % 4294967296).toNat, (m.packetType % 4294967296).toNat, m.body⟩] }

def backToStart (c : Client) : Client := { c with packetOffset := 0, inOffset := 0 }

end Client

section Loop

-- `parsePacket` may return an error at any packet; the function sees all it was handed so far.
variable (recvBufSize : Nat) (parsePacketFails : List Packet → Bool)

/-- From the label `ParseAgain` to the next `continue` (no exit) or `break`. -/
def parseAgain : Nat → Client → Option ClientExit × Client
  | 0, c => (none, c)
  | fuel + 1, c =>
      match c.matchPacket recvBufSize with
      | none => (some .panicked, c)
      | some m =>
          if m.token = 0 then
            if m.needs = 0 then (some .oversized, c)
            else if (recvBufSize : Int) - c.inOffset < m.needs then
              if ((recvBufSize / 2 : Nat) : Int) < m.needs then (some .overflow, c)
              else (none, c.compact)
            else (none, c)
          else
            let c' := c.hand m
            if parsePacketFails c'.handed then (some .parseError, c')
            else if c'.packetOffset = c'.inOffset then (none, c'.backToStart)
            else parseAgain fuel c'

inductive ReadResult where
  | bytes (data : List UInt8)
  | err
deriving DecidableEq, Repr

def Client.read (c : Client) (data : List UInt8) : Client :=
  { c with
    clientInBuf := writeAt c.clientInBuf c.inOffset data
    inOffset := c.inOffset + data.length }

-- Every packet takes a header at least, so the loop ends within `inOffset` rounds.
def onRead (c : Client) : ReadResult → Option ClientExit × Client
  | .err => (some .readError, c)
  | .bytes [] => (some .closed, c)
  | .bytes data =>
      parseAgain recvBufSize parsePacketFails ((c.read data).inOffset + 1) (c.read data)

/-- The loop of `handleClient`, fed with the results of its `Read` calls. No exit means that it
waits in the next `Read`. -/
def handleClient : Client → List ReadResult → Option ClientExit × Client
  | c, [] => (none, c)
  | c, result :: results =>
      match onRead recvBufSize parsePacketFails c result with
      | (none, c') => handleClient c' results
      | (some exit, c') => (some exit, c')

end Loop

theorem sliceExpr_eq_some {buffer out : List UInt8} {lo hi : Int}
    (h : sliceExpr buffer lo hi = some out) :
    0 ≤ lo ∧ lo ≤ hi ∧ hi ≤ buffer.length ∧ out = slice buffer lo.toNat hi.toNat := by
  rw [sliceExpr] at h
  split at h
  · rename_i hbounds
    cases h
    exact ⟨hbounds.1, hbounds.2.1, hbounds.2.2, rfl⟩
  · cases h

private theorem matchFullPacket_packet {recvBufSize : Nat} {buffer : List UInt8} {start total : Int}
    {m : Matched} (hm : matchFullPacket recvBufSize buffer start total = some m)
    (htoken : m.token ≠ 0) :
    8 ≤ total ∧ ∃ head body,
      sliceExpr buffer start (toSigned 32 (start + total)) = some head ∧
      (parseHeader head).1 ≤ toUnsigned 32 recvBufSize ∧
      toSigned 32 (wordAdd 32 (parseHeader head).1 8) ≤ total ∧
      sliceExpr buffer (toSigned 32 (start + 8))
        (toSigned 32 (start + 8 + toSigned 32 (parseHeader head).1)) = some body ∧
      m = ⟨toSigned 32 (toSigned 32 (parseHeader head).1 + 8), 0,
        toSigned 32 (parseHeader head).1, toSigned 32 (parseHeader head).2, body⟩ := by
  rw [matchFullPacket] at hm
  by_cases htotal : total < clientHeaderSize
  · rw [if_pos htotal] at hm
    cases hm
    exact absurd rfl htoken
  · rw [if_neg htotal] at hm
    cases hhead : sliceExpr buffer start (toSigned 32 (start + total)) with
    | none => simp [hhead] at hm
    | some head =>
        rw [hhead, Option.bind_some] at hm
        by_cases hbig : toUnsigned 32 recvBufSize < (parseHeader head).1
        · rw [if_pos hbig] at hm
          cases hm
          exact absurd rfl htoken
        · rw [if_neg hbig] at hm
          by_cases hshort : total < toSigned 32 (wordAdd 32 (parseHeader head).1 8)
          · rw [if_pos hshort] at hm
            cases hm
            exact absurd rfl htoken
          · rw [if_neg hshort] at hm
            cases hbody : sliceExpr buffer (toSigned 32 (start + clientHeaderSize))
                (toSigned 32 (start + clientHeaderSize +
                  toSigned 32 (parseHeader head).1)) with
            | none => simp [hbody] at hm
            | some body =>
                rw [hbody, Option.map_some] at hm
                exact ⟨not_lt.mp htotal, head, body, rfl, not_lt.mp hbig, not_lt.mp hshort, hbody,
                  (Option.some.inj hm).symm⟩

namespace Client

/-- The offsets stay in order, and `packetOffset` never leaves the positive `int32` range. -/
structure Ordered (c : Client) : Prop where
  packet_le : c.packetOffset ≤ c.inOffset
  in_le : c.inOffset ≤ c.clientInBuf.length
  packet_lt : c.packetOffset < 2147483648

theorem length_unparsed {c : Client} (h : c.Ordered) :
    c.unparsed.length = c.inOffset - c.packetOffset :=
  length_slice h.in_le

theorem unparsed_body {c : Client} {w : Nat} (h : c.packetOffset + 8 + w ≤ c.inOffset) :
    (c.unparsed.drop 8).take w =
      slice c.clientInBuf (c.packetOffset + 8) (c.packetOffset + 8 + w) := by
  rw [unparsed, slice_drop, slice_take h]

theorem header_words {buf head : List UInt8} {lo hi k : Nat}
    (hhead : head = slice buf lo (lo + k)) (h8 : 8 ≤ k) (hk : lo + k ≤ hi)
    (hlen : hi ≤ buf.length) :
    (parseHeader head).1 = readBe32 ((slice buf lo hi).drop 4) ∧
      (parseHeader head).2 = readBe32 (slice buf lo hi) := by
  have hsize : head.length = k := by
    rw [hhead, length_slice (by omega)]
    omega
  have hwhole : slice buf lo hi = head ++ slice buf (lo + k) hi := by
    rw [hhead, slice_append_slice (by omega) hk hlen]
  have hdrop : 4 ≤ (head.drop 4).length := by
    rw [List.length_drop]
    omega
  rw [hwhole, List.drop_append_of_le_length (by omega), readBe32_append hdrop,
    readBe32_append (by omega)]
  exact ⟨rfl, rfl⟩

private theorem match_bounds {p w : Nat} {total : Int} (hp : p < 2147483648)
    (hw : w < 4294967296) (h8 : 8 ≤ total) (htotal : total < 2147483648)
    (hhead : (p : Int) ≤ toSigned 32 (p + total))
    (hbody : toSigned 32 ((p : Int) + 8) ≤ toSigned 32 ((p : Int) + 8 + toSigned 32 w))
    (hfull : toSigned 32 (wordAdd 32 w 8) ≤ total) :
    toSigned 32 (p + total) = p + total ∧ toSigned 32 ((p : Int) + 8) = (p + 8 : Nat) ∧
      toSigned 32 ((p : Int) + 8 + toSigned 32 w) = (p + 8 + w : Nat) ∧
      toSigned 32 (toSigned 32 w + 8) = (8 + w : Nat) ∧ p + 8 + w < 2147483648 ∧
      8 + (w : Int) ≤ total := by
  have hend : (p : Int) + total < 2147483648 := lt_of_toSigned_32_nonneg (by omega) (by omega)
  have hstart : toSigned 32 ((p : Int) + 8) = p + 8 := toSigned_32_eq (by omega) (by omega)
  rw [hstart] at hbody
  by_cases hw31 : w < 2147483648
  · have hsmall : toSigned 32 (w : Int) = w := toSigned_32_eq (by omega) (by omega)
    rw [hsmall] at hbody ⊢
    have hlt : (p : Int) + 8 + w < 2147483648 := lt_of_toSigned_32_nonneg (by omega) (by omega)
    have hsum : wordAdd 32 w 8 = w + 8 := wordAdd_of_lt (by clear hhead hbody hfull; omega)
    rw [hsum, toSigned_32_eq (by omega) (by omega)] at hfull
    rw [hstart, toSigned_32_eq (by omega) hend, toSigned_32_eq (by omega) hlt,
      toSigned_32_eq (by omega) (by omega)]
    omega
  · rw [toSigned_32_wrap (a := (w : Int)) (by omega) (by omega),
      toSigned_32_eq (by omega) (by omega)] at hbody
    omega

theorem matchPacket_sound {c : Client} (h : c.Ordered) {recvBufSize : Nat} {m : Matched}
    (hm : c.matchPacket recvBufSize = some m) (htoken : m.token ≠ 0) :
    ∃ (f : Frame) (rest : List UInt8), c.unparsed = f.encode ++ rest ∧
      f.body.length ≤ toUnsigned 32 recvBufSize ∧ c.packetOffset + f.size < 2147483648 ∧
      m = ⟨f.size, 0, toSigned 32 f.body.length, toSigned 32 f.type, f.body⟩ := by
  have hlen := length_unparsed h
  obtain ⟨hpn, hn, hp⟩ := h
  obtain ⟨h8, head, body, hhead, hpasses, hfull, hbody, hmatched⟩ := matchFullPacket_packet hm htoken
  have hle : toSigned 32 ((c.inOffset : Int) - c.packetOffset) ≤ c.inOffset - c.packetOffset :=
    toSigned_32_le (by omega)
  have hlt := toSigned_32_lt ((c.inOffset : Int) - c.packetOffset)
  have hw := readBe32_lt (head.drop 4)
  have hstart : toSigned 32 (c.packetOffset : Int) = c.packetOffset :=
    toSigned_32_eq (by omega) (by omega)
  rw [hstart] at hhead hbody
  obtain ⟨-, hhead', -, hhead⟩ := sliceExpr_eq_some hhead
  obtain ⟨-, hbody', -, hbody⟩ := sliceExpr_eq_some hbody
  obtain ⟨hend, hlow, hhigh, htok, hfit, hroom⟩ :=
    match_bounds hp (by rw [parseHeader]; omega) h8 hlt hhead' hbody' hfull
  rw [hlow, hhigh, Int.toNat_natCast, Int.toNat_natCast] at hbody
  rw [hend] at hhead
  clear hhead' hbody' hfull hend hlow hhigh hstart hw hlt
  generalize toSigned 32 ((c.inOffset : Int) - c.packetOffset) = total at *
  obtain ⟨k, rfl⟩ : ∃ k : Nat, total = k := ⟨total.toNat, by omega⟩
  rw [← Nat.cast_add, Int.toNat_natCast, Int.toNat_natCast] at hhead
  obtain ⟨hword, htype⟩ : (parseHeader head).1 = readBe32 (c.unparsed.drop 4) ∧
      (parseHeader head).2 = readBe32 c.unparsed := header_words hhead (by omega) (by omega) hn
  rw [hword] at hbody hmatched htok hfit hroom hpasses
  rw [htype, htok] at hmatched
  obtain ⟨f, hscan, hftype, hfbody⟩ :=
    scanFrame_of_full (s := c.unparsed) (by omega) le_rfl (by omega)
  have hflen : f.body.length = readBe32 (c.unparsed.drop 4) := by
    rw [hfbody, List.length_take, List.length_drop]
    omega
  rw [unparsed_body (by omega), ← hbody] at hfbody
  refine ⟨f, _, (scanFrame_frame hscan).1, hflen ▸ hpasses, ?_, ?_⟩
  · rw [Frame.size, hflen]
    omega
  · rw [hmatched, Frame.size, hflen, hftype, hfbody]

/-- The bytes read so far are the packets handed over, in order, and the unparsed rest. -/
structure Sound (c : Client) (recvBufSize : Nat) (s : List UInt8) : Prop where
  ordered : c.Ordered
  size : c.clientInBuf.length = recvBufSize
  handed : ∃ fs : List Frame, c.handed = fs.map Packet.ofFrame ∧ s = encodeAll fs ++ c.unparsed

theorem sound_new (recvBufSize : Nat) : (new recvBufSize).Sound recvBufSize [] := by
  refine ⟨⟨le_rfl, Nat.zero_le _, by simp [new]⟩, by simp [new], [], rfl, ?_⟩
  simp [new, unparsed]

theorem length_compact {c : Client} (h : c.Ordered) :
    c.compact.clientInBuf.length = c.clientInBuf.length := by
  have hlen := length_unparsed h
  obtain ⟨hpn, hn, hp⟩ := h
  apply length_writeAt
  change 0 + c.unparsed.length ≤ _
  omega

theorem Ordered.compact {c : Client} (h : c.Ordered) : c.compact.Ordered := by
  have hn := h.in_le
  refine ⟨Nat.zero_le _, ?_, by simp [Client.compact]⟩
  rw [length_compact h]
  change c.inOffset - c.packetOffset ≤ _
  omega

theorem unparsed_compact {c : Client} (h : c.Ordered) : c.compact.unparsed = c.unparsed := by
  have hlen := length_unparsed h
  change slice (writeAt c.clientInBuf 0 c.unparsed) 0 (c.inOffset - c.packetOffset) = _
  rw [← hlen, slice_writeAt_zero]

private theorem Sound.compact {c : Client} {recvBufSize : Nat} {s : List UInt8}
    (h : c.Sound recvBufSize s) : c.compact.Sound recvBufSize s := by
  refine ⟨h.ordered.compact, (length_compact h.ordered).trans h.size, ?_⟩
  rw [unparsed_compact h.ordered]
  exact h.handed

theorem Ordered.read {c : Client} (h : c.Ordered) {data : List UInt8}
    (hfit : c.inOffset + data.length ≤ c.clientInBuf.length) : (c.read data).Ordered := by
  have hpn := h.packet_le
  refine ⟨?_, ?_, h.packet_lt⟩
  · change c.packetOffset ≤ c.inOffset + data.length
    omega
  · change c.inOffset + data.length ≤ (writeAt c.clientInBuf c.inOffset data).length
    rw [length_writeAt hfit]
    exact hfit

theorem unparsed_read {c : Client} (h : c.Ordered) (data : List UInt8) :
    (c.read data).unparsed = c.unparsed ++ data :=
  slice_writeAt h.packet_le h.in_le

private theorem Sound.backToStart {c : Client} {recvBufSize : Nat} {s : List UInt8}
    (h : c.Sound recvBufSize s) (hreset : c.packetOffset = c.inOffset) :
    c.backToStart.Sound recvBufSize s := by
  obtain ⟨fs, hfs, hs⟩ := h.handed
  refine ⟨⟨le_rfl, Nat.zero_le _, by simp [Client.backToStart]⟩, h.size, fs, hfs, ?_⟩
  rw [hs, unparsed, unparsed, hreset]
  simp [Client.backToStart]

theorem Sound.read {c : Client} {recvBufSize : Nat} {s data : List UInt8}
    (h : c.Sound recvBufSize s) (hfit : c.inOffset + data.length ≤ c.clientInBuf.length) :
    (c.read data).Sound recvBufSize (s ++ data) := by
  obtain ⟨fs, hhanded, hbytes⟩ := h.handed
  refine ⟨h.ordered.read hfit, (length_writeAt hfit).trans h.size, fs, hhanded, ?_⟩
  rw [unparsed_read h.ordered, hbytes, List.append_assoc]

theorem hand_frame {c : Client} (h : c.Ordered) {f : Frame} {rest : List UInt8}
    (hbytes : c.unparsed = f.encode ++ rest) (hlt : c.packetOffset + f.size < 2147483648)
    {c' : Client}
    (hc : c.hand ⟨f.size, 0, toSigned 32 f.body.length, toSigned 32 f.type, f.body⟩ = c') :
    c'.Ordered ∧ c'.unparsed = rest ∧ c'.handed = c.handed ++ [Packet.ofFrame f] ∧
      c'.clientInBuf = c.clientInBuf ∧ c'.inOffset = c.inOffset ∧
      c'.packetOffset = c.packetOffset + f.size := by
  have hlen := length_unparsed h
  rw [hbytes, List.length_append, Frame.length_encode] at hlen
  obtain ⟨hpn, hn, -⟩ := h
  have hpos := f.size_pos
  have hofs : c'.packetOffset = c.packetOffset + f.size := by
    rw [← hc]
    change ((c.packetOffset : Int) + f.size).toNat = _
    omega
  have hrest : c'.unparsed = rest := by
    rw [unparsed, hofs, ← hc]
    change slice c.clientInBuf (c.packetOffset + f.size) c.inOffset = rest
    rw [← slice_drop]
    change c.unparsed.drop f.size = rest
    rw [hbytes, ← f.length_encode, List.drop_left]
  subst hc
  refine ⟨⟨?_, hn, by omega⟩, hrest, ?_, rfl, rfl, hofs⟩
  · rw [hofs]
    change _ ≤ c.inOffset
    omega
  · have hword : ∀ {n : Nat}, n < 2 ^ 32 → (toSigned 32 n % 4294967296).toNat = n := by
      intro n hn
      rw [toSigned_32_mod]
      omega
    rw [Client.hand, hword f.body_lt, hword f.type_lt]
    rfl

theorem Sound.hand {c : Client} {recvBufSize : Nat} {s : List UInt8} (h : c.Sound recvBufSize s)
    {m : Matched} (hm : c.matchPacket recvBufSize = some m) (htoken : m.token ≠ 0) :
    (c.hand m).Sound recvBufSize s := by
  obtain ⟨f, rest, hbytes, -, hlt, rfl⟩ := matchPacket_sound h.ordered hm htoken
  obtain ⟨fs, hfs, hs⟩ := h.handed
  obtain ⟨hord, hrest, hhanded, hbuf, -, -⟩ := hand_frame h.ordered hbytes hlt rfl
  refine ⟨hord, by rw [hbuf, h.size], fs ++ [f], ?_, ?_⟩
  · rw [hhanded, hfs, List.map_append]
    rfl
  · rw [hs, hbytes, hrest]
    simp

end Client

def ReadResult.data : ReadResult → List UInt8
  | .bytes data => data
  | .err => []

def bytesOf (results : List ReadResult) : List UInt8 := results.flatMap ReadResult.data

section Runs

variable (recvBufSize : Nat) (parsePacketFails : List Packet → Bool)

/-- Every `Read` delivers at most the room left in the buffer at that moment. -/
def Fits : Client → List ReadResult → Prop
  | _, [] => True
  | c, result :: results =>
      result.data.length ≤ recvBufSize - c.inOffset ∧
        match onRead recvBufSize parsePacketFails c result with
        | (none, c') => Fits c' results
        | (some _, _) => True

instance Fits.decidable : (c : Client) → (results : List ReadResult) →
    Decidable (Fits recvBufSize parsePacketFails c results)
  | _, [] => isTrue trivial
  | c, result :: results =>
      match h : onRead recvBufSize parsePacketFails c result with
      | (none, c') =>
          have := Fits.decidable c' results
          decidable_of_iff (result.data.length ≤ recvBufSize - c.inOffset ∧
            Fits recvBufSize parsePacketFails c' results) (by simp [Fits, h])
      | (some _, _) =>
          decidable_of_iff (result.data.length ≤ recvBufSize - c.inOffset) (by simp [Fits, h])

variable {recvBufSize parsePacketFails}

theorem parseAgain_sound (fuel : Nat) {c : Client} {s : List UInt8} (h : c.Sound recvBufSize s) :
    (parseAgain recvBufSize parsePacketFails fuel c).2.Sound recvBufSize s := by
  induction fuel generalizing c with
  | zero => exact h
  | succ fuel ih =>
      rw [parseAgain]
      cases hm : c.matchPacket recvBufSize with
      | none => exact h
      | some m =>
          by_cases htoken : m.token = 0
          · simp only [htoken, if_true]
            split
            · exact h
            · split
              · split
                · exact h
                · exact h.compact
              · exact h
          · have h' := h.hand hm htoken
            simp only [htoken, if_false]
            split
            · exact h'
            · split
              · exact h'.backToStart ‹_›
              · exact ih h'

theorem onRead_sound {c : Client} {s : List UInt8} (h : c.Sound recvBufSize s)
    {result : ReadResult} (hroom : result.data.length ≤ recvBufSize - c.inOffset) :
    (onRead recvBufSize parsePacketFails c result).2.Sound recvBufSize (s ++ result.data) := by
  match result with
  | .err => simpa [onRead, ReadResult.data] using h
  | .bytes [] => simpa [onRead, ReadResult.data] using h
  | .bytes (b :: data) =>
      have hin := h.ordered.in_le
      have hsize := h.size
      apply parseAgain_sound
      apply h.read
      change (b :: data).length ≤ _ at hroom
      omega

/-- Whatever `Read` and `parsePacket` return, the packets handed over are the frames at the front
of the bytes read. -/
theorem handleClient_sound {c : Client} {s : List UInt8} (h : c.Sound recvBufSize s)
    {results : List ReadResult} (hfits : Fits recvBufSize parsePacketFails c results) :
    ∃ t, t <+: bytesOf results ∧
      (handleClient recvBufSize parsePacketFails c results).2.Sound recvBufSize (s ++ t) := by
  induction results generalizing c s with
  | nil => exact ⟨[], List.nil_prefix, by simpa [handleClient] using h⟩
  | cons result results ih =>
      obtain ⟨hroom, hnext⟩ := hfits
      have hread : (onRead recvBufSize parsePacketFails c result).2.Sound recvBufSize
          (s ++ result.data) := onRead_sound h hroom
      rw [handleClient]
      rcases honce : onRead recvBufSize parsePacketFails c result with ⟨_ | exit, c'⟩
      · rw [honce] at hread hnext
        obtain ⟨t, ht, hsound⟩ := ih hread hnext
        refine ⟨result.data ++ t, ?_, by simpa using hsound⟩
        exact (List.prefix_append_right_inj _).mpr ht
      · rw [honce] at hread
        exact ⟨result.data, List.prefix_append _ _, hread⟩

end Runs

end PinpointAgent.Server
