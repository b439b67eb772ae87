import PinpointAgent.Server.InBounds

/-!
# Packets that pass the size check and do not fit

`matchFullPacket` compares the length of the body with `RecvBufSize`, while the buffer has to hold
the header as well. A packet whose body is within eight bytes of the limit passes the check and
can never be completed: either its missing part is more than half of the buffer and the reader
gives up, or its bytes fill the buffer from the start and the next `Read` is given an empty slice.
That `Read` returns no bytes, which `handleClient` reports as the client having closed.

In a buffer of 2 GiB or more the number of unparsed bytes is no `int32`. What `matchFullPacket` asks
for is then wrong and may be negative, and a buffer can be filled whatever the packets in it are.
-/

namespace PinpointAgent.Server

open Framework

/-- A packet that passes the size check, has a size that is an `int32`, and fits the buffer. -/
structure Receivable (recvBufSize : Nat) (f : Frame) : Prop where
  passes : f.body.length ≤ toUnsigned 32 recvBufSize
  small : f.size < 2147483648
  fits : f.size ≤ recvBufSize

/-- The number of unparsed bytes that `matchFullPacket` is told of a full buffer, in which `offset` bytes have been
handed over. -/
def seenBytes (recvBufSize offset : Nat) : Int := toSigned 32 ((recvBufSize : Int) - offset)

/-- In a full buffer, behind `offset` bytes that have been handed over and in front of a header with the length
`bodyLen`, the reader asks for more and has no room for it. Either it takes what it sees for less than a header, and asks
for a negative number of bytes or for few enough to move bytes that are in front already; or it sees a packet in front
that passes the check and is longer than what it sees. -/
def Fills (recvBufSize offset bodyLen : Nat) : Prop :=
  (seenBytes recvBufSize offset < 8 ∧
    (toSigned 32 (8 - seenBytes recvBufSize offset) < 0 ∨
      offset = 0 ∧ toSigned 32 (8 - seenBytes recvBufSize offset) ≤ (recvBufSize / 2 : Nat))) ∨
  (8 ≤ seenBytes recvBufSize offset ∧ offset = 0 ∧ bodyLen ≤ toUnsigned 32 recvBufSize ∧
    seenBytes recvBufSize offset < 8 + bodyLen ∧ 8 + bodyLen < 2147483648)

private theorem fills_iff_of_small {recvBufSize offset bodyLen : Nat} (hR : 16 ≤ recvBufSize)
    (hwords : recvBufSize + 8 < 2147483648) (hoffset : offset < 2147483648) :
    Fills recvBufSize offset bodyLen ↔ offset = 0 ∧ bodyLen ≤ recvBufSize ∧ recvBufSize < 8 + bodyLen := by
  have hseen : seenBytes recvBufSize offset = (recvBufSize : Int) - offset := toSigned_32_eq (by omega) (by omega)
  have hneeds : toSigned 32 (8 - ((recvBufSize : Int) - offset)) = 8 - ((recvBufSize : Int) - offset) :=
    toSigned_32_eq (by omega) (by omega)
  rw [Fills, hseen, hneeds, toUnsigned_32]
  omega

namespace Client

/-- What the reader was sent: packets that it has handed over, of which the last ones still lie in front of
the unparsed bytes. -/
structure Placed (c : Client) (recvBufSize : Nat) (s : List UInt8) : Prop where
  ordered : c.Ordered
  size : c.clientInBuf.length = recvBufSize
  split : ∃ done buffered : List Frame, s = encodeAll (done ++ buffered) ++ c.unparsed ∧
    c.packetOffset = (encodeAll buffered).length ∧ ∀ f ∈ done ++ buffered, Receivable recvBufSize f

/-- The next `Read` has no room. -/
structure Full (c : Client) (recvBufSize : Nat) : Prop where
  inOffset : c.inOffset = recvBufSize
  fills : Fills recvBufSize c.packetOffset (parseHeader c.unparsed).1

section Waiting

variable {c : Client} {recvBufSize : Nat} {s : List UInt8} {m : Matched}

private theorem placed_new (recvBufSize : Nat) : (new recvBufSize).Placed recvBufSize [] := by
  refine ⟨(sound_new recvBufSize).ordered, by simp [new], [], [], ?_, rfl, fun f hf => absurd hf List.not_mem_nil⟩
  simp [new, unparsed]

private theorem Placed.inOffset_le (h : c.Placed recvBufSize s) : c.inOffset ≤ recvBufSize := by
  rw [← h.size]
  exact h.ordered.in_le

private theorem Placed.read (h : c.Placed recvBufSize s) {data : List UInt8} (hfit : data.length ≤ recvBufSize - c.inOffset) :
    (c.read data).Placed recvBufSize (s ++ data) := by
  have hin := h.inOffset_le
  have hroom : c.inOffset + data.length ≤ c.clientInBuf.length := by
    rw [h.size]
    omega
  obtain ⟨done, buffered, hs, hoffset, hall⟩ := h.split
  refine ⟨h.ordered.read hroom, (length_writeAt hroom).trans h.size, done, buffered, ?_, hoffset, hall⟩
  rw [unparsed_read h.ordered, hs, List.append_assoc]

private theorem Placed.compact (h : c.Placed recvBufSize s) : c.compact.Placed recvBufSize s := by
  obtain ⟨done, buffered, hs, -, hall⟩ := h.split
  refine ⟨h.ordered.compact, (length_compact h.ordered).trans h.size, done ++ buffered, [], ?_, rfl, ?_⟩
  · rw [unparsed_compact h.ordered, List.append_nil]
    exact hs
  · rw [List.append_nil]
    exact hall

private theorem Placed.backToStart (h : c.Placed recvBufSize s) (hreset : c.packetOffset = c.inOffset) :
    c.backToStart.Placed recvBufSize s := by
  obtain ⟨done, buffered, hs, -, hall⟩ := h.split
  refine ⟨⟨le_rfl, Nat.zero_le _, by simp [Client.backToStart]⟩, h.size, done ++ buffered, [], ?_, rfl, ?_⟩
  · rw [hs, unparsed, unparsed, hreset]
    simp [Client.backToStart]
  · rw [List.append_nil]
    exact hall

private theorem Placed.hand (h : c.Placed recvBufSize s) (hm : c.matchPacket recvBufSize = some m) (htoken : m.token ≠ 0) :
    (c.hand m).Placed recvBufSize s ∧ (c.hand m).unparsed.length < c.unparsed.length := by
  obtain ⟨f, rest, hbytes, hpasses, hlt, rfl⟩ := matchPacket_sound h.ordered hm htoken
  obtain ⟨done, buffered, hs, hoffset, hall⟩ := h.split
  obtain ⟨hord, hrest, -, hbuf, -, hpacket⟩ := hand_frame h.ordered hbytes hlt rfl
  have hlen := length_unparsed h.ordered
  have hin := h.inOffset_le
  have hpos := f.size_pos
  rw [hbytes, List.length_append, Frame.length_encode] at hlen
  refine ⟨⟨hord, hbuf ▸ h.size, done, buffered ++ [f], ?_, ?_, ?_⟩, ?_⟩
  · rw [hs, hbytes, hrest]
    simp
  · rw [hpacket, hoffset]
    simp
  · intro g hg
    rw [← List.append_assoc, List.mem_append, List.mem_singleton] at hg
    rcases hg with hg | rfl
    · exact hall g hg
    · exact ⟨hpasses, by omega, by omega⟩
  · rw [hrest, hbytes, List.length_append, Frame.length_encode]
    omega

private theorem matchPacket_waiting (h : c.Ordered) (hm : c.matchPacket recvBufSize = some m) (hneeds : m.needs ≠ 0) :
    (toSigned 32 ((c.inOffset : Int) - c.packetOffset) < 8 ∧
      m.needs = toSigned 32 (8 - toSigned 32 ((c.inOffset : Int) - c.packetOffset))) ∨
    (8 ≤ toSigned 32 ((c.inOffset : Int) - c.packetOffset) ∧ (parseHeader c.unparsed).1 ≤ toUnsigned 32 recvBufSize ∧
      toSigned 32 ((c.inOffset : Int) - c.packetOffset) < 8 + (parseHeader c.unparsed).1 ∧
      8 + (parseHeader c.unparsed).1 < 2147483648 ∧
      m.needs = 8 + (parseHeader c.unparsed).1 - toSigned 32 ((c.inOffset : Int) - c.packetOffset)) := by
  obtain ⟨hpn, hin, hp⟩ := h
  have hle : toSigned 32 ((c.inOffset : Int) - c.packetOffset) ≤ c.inOffset - c.packetOffset :=
    toSigned_32_le (by omega)
  have hlt := toSigned_32_lt ((c.inOffset : Int) - c.packetOffset)
  have hstart : toSigned 32 (c.packetOffset : Int) = c.packetOffset := toSigned_32_eq (by omega) (by omega)
  rw [matchPacket, matchFullPacket, hstart] at hm
  generalize toSigned 32 ((c.inOffset : Int) - c.packetOffset) = total at *
  by_cases htotal : total < clientHeaderSize
  · rw [if_pos htotal] at hm
    cases hm
    exact .inl ⟨htotal, rfl⟩
  right
  rw [if_neg htotal] at hm
  rw [clientHeaderSize] at htotal
  obtain ⟨head, hhead, hm⟩ := Option.bind_eq_some_iff.1 hm
  obtain ⟨-, hend, -, rfl⟩ := sliceExpr_eq_some hhead
  -- the slice of the header did not panic, so its end has not wrapped
  have hfit : (c.packetOffset : Int) + total < 2147483648 := lt_of_toSigned_32_nonneg (by omega) (by omega)
  obtain ⟨k, rfl⟩ : ∃ k : Nat, total = k := ⟨total.toNat, by omega⟩
  have hstop : (toSigned 32 ((c.packetOffset : Int) + k)).toNat = c.packetOffset + k := by
    rw [toSigned_32_eq (by omega) (by omega)]
    omega
  rw [hstop, Int.toNat_natCast] at hm
  have hword : (parseHeader (slice c.clientInBuf c.packetOffset (c.packetOffset + k))).1 = (parseHeader c.unparsed).1 :=
    (header_words rfl (by omega) (by omega) hin).1
  rw [hword] at hm
  have hw : (parseHeader c.unparsed).1 < 4294967296 := readBe32_lt _
  generalize (parseHeader c.unparsed).1 = w at hm hw
  by_cases hbig : toUnsigned 32 recvBufSize < w
  · simp only [if_pos hbig] at hm
    cases hm
    exact absurd rfl hneeds
  simp only [if_neg hbig] at hm
  by_cases hshort : (k : Int) < toSigned 32 (wordAdd 32 w 8)
  · simp only [if_pos hshort] at hm
    cases hm
    rw [wordAdd_32, toSigned_32] at hshort
    have hsmall : 8 + w < 2147483648 := by omega
    refine ⟨by omega, by omega, by omega, hsmall, ?_⟩
    change toSigned 32 (toSigned 32 (w : Int) + clientHeaderSize - k) = _
    rw [clientHeaderSize, toSigned_32_natCast (by omega), toSigned_32_eq (by omega) (by omega)]
    omega
  · simp only [if_neg hshort] at hm
    obtain ⟨body, -, rfl⟩ := Option.map_eq_some_iff.1 hm
    exact absurd rfl hneeds

-- after the compaction the buffer holds the unparsed bytes and nothing else
private theorem Placed.room_compact (h : c.Placed recvBufSize s)
    (hm : c.matchPacket recvBufSize = some m) (hneeds : m.needs ≠ 0)
    (hhalf : ¬((recvBufSize / 2 : Nat) : Int) < m.needs) :
    c.compact.inOffset < recvBufSize ∨ c.compact.Full recvBufSize := by
  have hin := h.inOffset_le
  have hpn := h.ordered.packet_le
  by_cases hfull : c.inOffset - c.packetOffset = recvBufSize
  · right
    have hzero : c.packetOffset = 0 := by omega
    have hend : c.inOffset = recvBufSize := by omega
    refine ⟨hfull, ?_⟩
    rw [unparsed_compact h.ordered]
    change Fills recvBufSize 0 _
    have hasked := matchPacket_waiting h.ordered hm hneeds
    rw [hend, hzero] at hasked
    rcases hasked with ⟨hfew, heq⟩ | ⟨hmany, hpass, hshort, hsmall, -⟩
    · exact .inl ⟨hfew, .inr ⟨rfl, heq ▸ not_lt.1 hhalf⟩⟩
    · exact .inr ⟨hmany, rfl, hpass, hshort, hsmall⟩
  · left
    change c.inOffset - c.packetOffset < recvBufSize
    omega

private theorem Placed.room_kept (h : c.Placed recvBufSize s) (hm : c.matchPacket recvBufSize = some m)
    (hneeds : m.needs ≠ 0) (hmore : ¬(recvBufSize : Int) - c.inOffset < m.needs) :
    c.inOffset < recvBufSize ∨ c.Full recvBufSize := by
  have hin := h.inOffset_le
  by_cases hend : c.inOffset = recvBufSize
  · -- nothing is asked for of a full buffer, so the number is negative
    right
    have hnegative : m.needs < 0 := by omega
    refine ⟨hend, .inl ?_⟩
    have hasked := matchPacket_waiting h.ordered hm hneeds
    rw [hend] at hasked
    rcases hasked with ⟨hfew, heq⟩ | ⟨-, -, hshort, -, heq⟩
    · exact ⟨hfew, .inl (heq ▸ hnegative)⟩
    · omega
  · exact .inl (by omega)

end Waiting

end Client

section Runs

variable {recvBufSize : Nat} {parsePacketFails : List Packet → Bool}

private theorem parseAgain_room (hR : 16 ≤ recvBufSize) (rounds : Nat) {c c' : Client} {s : List UInt8}
    (h : c.Placed recvBufSize s) (hrounds : c.unparsed.length < rounds)
    (hwait : parseAgain recvBufSize parsePacketFails rounds c = (none, c')) :
    c'.Placed recvBufSize s ∧ (c'.inOffset < recvBufSize ∨ c'.Full recvBufSize) := by
  induction rounds generalizing c with
  | zero => omega
  | succ rounds ih =>
    rw [parseAgain] at hwait
    rcases hm : c.matchPacket recvBufSize with _ | m
    · rw [hm] at hwait
      cases hwait
    rw [hm] at hwait
    by_cases htoken : m.token = 0
    · simp only [htoken, if_true] at hwait
      by_cases hneeds : m.needs = 0
      · rw [if_pos hneeds] at hwait
        cases hwait
      rw [if_neg hneeds] at hwait
      split at hwait
      · split at hwait
        · cases hwait
        · next hhalf =>
          cases hwait
          exact ⟨h.compact, h.room_compact hm hneeds hhalf⟩
      · next hmore =>
        obtain rfl : c = c' := congrArg Prod.snd hwait
        exact ⟨h, h.room_kept hm hneeds hmore⟩
    · obtain ⟨h', hshorter⟩ := h.hand hm htoken
      simp only [htoken, if_false] at hwait
      split at hwait
      · cases hwait
      · split at hwait
        · next hreset =>
          cases hwait
          exact ⟨h'.backToStart hreset, .inl (by change 0 < recvBufSize; omega)⟩
        · exact ih h' (by omega) hwait

private theorem handleClient_room (hR : 16 ≤ recvBufSize) {results : List ReadResult} {c c' : Client} {s : List UInt8}
    (h : c.Placed recvBufSize s) (hroom : c.inOffset < recvBufSize ∨ c.Full recvBufSize)
    (hfits : Fits recvBufSize parsePacketFails c results)
    (hwait : handleClient recvBufSize parsePacketFails c results = (none, c')) :
    c'.Placed recvBufSize (s ++ bytesOf results) ∧ (c'.inOffset < recvBufSize ∨ c'.Full recvBufSize) := by
  induction results generalizing c s with
  | nil =>
    cases hwait
    rw [bytesOf, List.flatMap_nil, List.append_nil]
    exact ⟨h, hroom⟩
  | cons result results ih =>
    obtain ⟨hfit, hnext⟩ := hfits
    rw [handleClient] at hwait
    rcases honce : onRead recvBufSize parsePacketFails c result with ⟨_ | exit, d⟩
    · rw [honce] at hwait hnext
      cases result with
      | err => cases honce
      | bytes data =>
        cases data with
        | nil => cases honce
        | cons b data =>
          have hread : (c.read (b :: data)).Placed recvBufSize (s ++ b :: data) := h.read hfit
          have hlen := Client.length_unparsed hread.ordered
          obtain ⟨h', hroom'⟩ := parseAgain_room hR _ hread (by omega) honce
          rw [bytesOf, List.flatMap_cons, ← List.append_assoc]
          exact ih h' hroom' hnext hwait
    · rw [honce] at hwait
      cases hwait

end Runs

/-! ## The streams that fill the buffer -/

/-- However the stream is cut into `Read` results and whatever `parsePacket` returns, no `Read` is
given an empty slice. -/
def ReadsWithRoom (recvBufSize : Nat) (stream : List UInt8) : Prop :=
  ∀ (parsePacketFails : List Packet → Bool) (results : List ReadResult) (c : Client),
    bytesOf results <+: stream →
    Fits recvBufSize parsePacketFails (Client.new recvBufSize) results →
    handleClient recvBufSize parsePacketFails (Client.new recvBufSize) results = (none, c) →
    c.inOffset < recvBufSize

/-- Nowhere behind packets that the reader hands over does the stream have what fills the buffer, counting those
of the packets that may still lie in it. -/
def PassingFit (recvBufSize : Nat) (stream : List UInt8) : Prop :=
  ∀ (done buffered : List Frame) (tail : List UInt8), stream = encodeAll (done ++ buffered) ++ tail →
    (∀ f ∈ done ++ buffered, Receivable recvBufSize f) → (encodeAll buffered).length + 1 < 2147483648 →
    recvBufSize ≤ (encodeAll buffered).length + tail.length →
    ¬Fills recvBufSize (encodeAll buffered).length (parseHeader tail).1

private theorem parseHeader_append {u : List UInt8} (h8 : 8 ≤ u.length) (v : List UInt8) :
    (parseHeader (u ++ v)).1 = (parseHeader u).1 := by
  change readBe32 ((u ++ v).drop 4) = readBe32 (u.drop 4)
  rw [List.drop_append_of_le_length (by omega), readBe32_append (by rw [List.length_drop]; omega)]

/-- Below 2 GiB: no packet of the stream that follows packets which fit the buffer passes the size check and
is longer than the buffer, as far as the stream brings a buffer full of it. -/
theorem passingFit_iff_of_small {recvBufSize : Nat} (hR : 16 ≤ recvBufSize) (hwords : recvBufSize + 8 < 2147483648)
    (stream : List UInt8) :
    PassingFit recvBufSize stream ↔ ∀ (fs : List Frame) (tail : List UInt8), stream = encodeAll fs ++ tail →
      (∀ f ∈ fs, f.size ≤ recvBufSize) → recvBufSize ≤ tail.length →
      (parseHeader tail).1 ≤ recvBufSize → 8 + (parseHeader tail).1 ≤ recvBufSize := by
  constructor
  · intro h fs tail hstream hfit hmore hpass
    by_contra hlong
    refine h fs [] tail (by rw [List.append_nil]; exact hstream) (fun f hf => ?_) (by simp) (by simpa using hmore) ?_
    · rw [List.append_nil] at hf
      have hsize := hfit f hf
      have hbody : f.size = 8 + f.body.length := rfl
      refine ⟨?_, by omega, hsize⟩
      rw [toUnsigned_32]
      omega
    · exact (fills_iff_of_small hR hwords (by simp)).2 ⟨rfl, hpass, by omega⟩
  · intro h done buffered tail hstream hall hsmall hmore hfills
    obtain ⟨hzero, hpass, hlong⟩ := (fills_iff_of_small hR hwords (by omega)).1 hfills
    have hshort := h (done ++ buffered) tail hstream (fun f hf => (hall f hf).fits) (by omega) hpass
    omega

/-- A buffer that is filled holds a header behind what was handed over, and if so much was handed over that not one
byte more could be counted, it would be filled just as well had nothing been handed over. -/
private theorem fills_at_end {recvBufSize offset bodyLen : Nat} (hR : 16 ≤ recvBufSize) (hle : offset ≤ recvBufSize)
    (hlt : offset < 2147483648) (h : Fills recvBufSize offset bodyLen) :
    8 ≤ recvBufSize - offset ∧ (offset + 1 < 2147483648 ∨ ∀ other, Fills recvBufSize 0 other) := by
  rw [Fills, seenBytes, toSigned_32, toSigned_32] at h
  refine ⟨by omega, ?_⟩
  by_cases hlast : offset + 1 < 2147483648
  · exact .inl hlast
  · refine .inr fun other => .inl ?_
    rw [seenBytes, toSigned_32, toSigned_32]
    omega

private theorem readsWithRoom_of_passingFit {recvBufSize : Nat} (hR : 16 ≤ recvBufSize) {stream : List UInt8}
    (hpass : PassingFit recvBufSize stream) : ReadsWithRoom recvBufSize stream := by
  intro parsePacketFails results c hstream hfits hwait
  obtain ⟨hplaced, hroom | ⟨hend, hfills⟩⟩ := handleClient_room hR (Client.placed_new recvBufSize)
    (.inl (by change 0 < recvBufSize; omega)) hfits hwait
  · exact hroom
  exfalso
  obtain ⟨later, hlater⟩ := hstream
  obtain ⟨done, buffered, hbytes, hoffset, hall⟩ := hplaced.split
  rw [List.nil_append] at hbytes
  have hpn := hplaced.ordered.packet_le
  have hlen := Client.length_unparsed hplaced.ordered
  obtain ⟨h8, hmost⟩ := fills_at_end hR (by omega) hplaced.ordered.packet_lt hfills
  rcases hmost with hmost | hzero
  · have hword := parseHeader_append (u := c.unparsed) (by omega) later
    refine hpass done buffered (c.unparsed ++ later) ?_ hall (by omega) ?_ ?_
    · rw [← hlater, hbytes, List.append_assoc]
    · rw [List.length_append]
      omega
    · rw [hword, ← hoffset]
      exact hfills
  · refine hpass [] [] stream rfl (fun f hf => absurd hf List.not_mem_nil) (by simp) ?_ (hzero _)
    rw [← hlater, hbytes, List.length_append, List.length_append, encodeAll_append, List.length_append]
    simp only [encodeAll_nil, List.length_nil]
    omega

section Filling

variable {recvBufSize : Nat} {c : Client}

private theorem matchPacket_longer (h : c.Ordered) (hzero : c.packetOffset = 0)
    (hmany : 8 ≤ toSigned 32 (c.inOffset : Int)) (hpass : (parseHeader c.unparsed).1 ≤ toUnsigned 32 recvBufSize)
    (hshort : toSigned 32 (c.inOffset : Int) < 8 + (parseHeader c.unparsed).1)
    (hsmall : 8 + (parseHeader c.unparsed).1 < 2147483648) :
    c.matchPacket recvBufSize =
      some { token := 0, needs := 8 + (parseHeader c.unparsed).1 - toSigned 32 (c.inOffset : Int) } := by
  have hin := h.in_le
  have hle := toSigned_32_le (Int.natCast_nonneg c.inOffset)
  have hlt := toSigned_32_lt (c.inOffset : Int)
  have hstart : toSigned 32 ((c.packetOffset : Nat) : Int) = 0 := by
    rw [hzero]
    exact toSigned_32_eq (by decide) (by decide)
  have htotal : (c.inOffset : Int) - (c.packetOffset : Nat) = c.inOffset := by
    rw [hzero]
    omega
  rw [Client.matchPacket, matchFullPacket, hstart, htotal, clientHeaderSize]
  generalize toSigned 32 (c.inOffset : Int) = total at *
  obtain ⟨k, rfl⟩ : ∃ k : Nat, total = k := ⟨total.toNat, by omega⟩
  have hhead : sliceExpr c.clientInBuf 0 (toSigned 32 (0 + (k : Int))) =
      some (slice c.clientInBuf c.packetOffset (c.packetOffset + k)) := by
    rw [toSigned_32_eq (by omega) (by omega), sliceExpr, if_pos (by omega), hzero]
    congr 2
  have hword : (parseHeader (slice c.clientInBuf c.packetOffset (c.packetOffset + k))).1 = (parseHeader c.unparsed).1 :=
    (Client.header_words rfl (by omega) (by omega) hin).1
  rw [if_neg (by omega), hhead, Option.bind_some, hword]
  generalize (parseHeader c.unparsed).1 = w at *
  have hsum : toSigned 32 ((wordAdd 32 w 8 : Nat) : Int) = w + 8 := by
    rw [wordAdd_32, toSigned_32]
    omega
  have hneeds : toSigned 32 (toSigned 32 (w : Int) + 8 - k) = 8 + w - k := by
    rw [toSigned_32_natCast (by omega), toSigned_32_eq (by omega) (by omega)]
    omega
  rw [if_neg (by omega), hsum, if_pos (by omega), hneeds]

private theorem parseAgain_fills (hR : 16 ≤ recvBufSize) (h : c.Ordered) (hend : c.inOffset = recvBufSize)
    (hfills : Fills recvBufSize c.packetOffset (parseHeader c.unparsed).1) (rounds : Nat) :
    ∃ c' : Client, c'.inOffset = recvBufSize ∧ parseAgain recvBufSize parsesAll (rounds + 1) c = (none, c') := by
  have hpn := h.packet_le
  have hround : ∀ needs : Int, needs ≠ 0 → c.matchPacket recvBufSize = some { token := 0, needs } →
      (needs < 0 ∨ c.packetOffset = 0 ∧ needs ≤ (recvBufSize / 2 : Nat)) →
      ∃ c' : Client, c'.inOffset = recvBufSize ∧ parseAgain recvBufSize parsesAll (rounds + 1) c = (none, c') := by
    intro needs hne hm hneeds
    rw [parseAgain, hm]
    simp only [if_true, if_neg hne, hend]
    by_cases hpos : (recvBufSize : Int) - recvBufSize < needs
    · obtain ⟨hzero, hhalf⟩ := hneeds.resolve_left (by omega)
      rw [if_pos hpos, if_neg (by omega)]
      refine ⟨c.compact, ?_, rfl⟩
      change c.inOffset - c.packetOffset = recvBufSize
      omega
    · rw [if_neg hpos]
      exact ⟨c, hend, rfl⟩
  rw [Fills, seenBytes, ← hend] at hfills
  rcases hfills with ⟨hfew, hneeds⟩ | ⟨hmany, hzero, hpass, hshort, hsmall⟩
  · refine hround _ ?_ ?_ (hend ▸ hneeds)
    · rw [toSigned_32, toSigned_32] at *
      omega
    · rw [Client.matchPacket, matchFullPacket, clientHeaderSize, if_pos hfew, hend]
  · have htotal : (c.inOffset : Int) - (c.packetOffset : Nat) = c.inOffset := by
      rw [hzero]
      omega
    rw [htotal] at hmany hshort
    rw [hend] at hpass
    refine hround _ (by omega) (matchPacket_longer h hzero hmany hpass hshort hsmall) (.inr ⟨hzero, ?_⟩)
    -- the limit is what the reader sees, so at most the size of a header is missing
    rw [toUnsigned_32] at hpass
    rw [toSigned_32, hend] at *
    omega

private theorem onRead_fills (hR : 16 ≤ recvBufSize) (hidle : c.Idle recvBufSize) {data : List UInt8}
    (hfull : data.length = recvBufSize) (hfills : Fills recvBufSize 0 (parseHeader data).1) :
    ∃ c' : Client, c'.inOffset = recvBufSize ∧ onRead recvBufSize parsesAll c (.bytes data) = (none, c') := by
  obtain ⟨-, hord, hbytes, hin, hpacket⟩ := hidle.read data (by omega)
  rw [onRead_bytes (List.ne_nil_of_length_pos (by omega))]
  apply parseAgain_fills hR hord (by omega)
  rw [hpacket, hbytes]
  exact hfills

private theorem onRead_leaves (hidle : c.Idle recvBufSize) {buffered : List Frame}
    (hacc : Acceptable recvBufSize buffered) (hlast : (encodeAll buffered).length + 1 < 2147483648)
    (hroom : (encodeAll buffered).length + 8 ≤ recvBufSize) (b : UInt8) :
    ∃ c' : Client, c'.Ordered ∧ c'.clientInBuf.length = recvBufSize ∧ c'.unparsed = [b] ∧
      c'.inOffset = (encodeAll buffered).length + 1 ∧ c'.packetOffset = (encodeAll buffered).length ∧
      onRead recvBufSize parsesAll c (.bytes (encodeAll buffered ++ [b])) = (none, c') := by
  have hlen : (encodeAll buffered ++ [b]).length = (encodeAll buffered).length + 1 := by simp
  obtain ⟨hsize, hord, hbytes, hin, hpacket⟩ := hidle.read (encodeAll buffered ++ [b]) (by omega)
  have hcount := length_le_encodeAll buffered
  obtain ⟨c', hord', hrest, hin', hbuf, hloop⟩ := parseAgain_frames hacc hord (by omega) hbytes (List.cons_ne_nil b [])
    ((encodeAll buffered).length + 1 - buffered.length + 1)
  have hone := Client.length_unparsed hord'
  have hpn := hord'.packet_le
  have hm : c'.matchPacket recvBufSize = some { token := 0, needs := 8 - c'.unparsed.length } :=
    Client.matchPacket_header hord' (by omega) (by simp [hrest])
  rw [hrest, List.length_singleton] at hone hm
  refine ⟨c', hord', hbuf ▸ hsize, hrest, by omega, by omega, ?_⟩
  have hrounds : (c.read (encodeAll buffered ++ [b])).inOffset + 1 =
      (encodeAll buffered).length + 1 - buffered.length + 1 + buffered.length := by omega
  rw [onRead_bytes (List.ne_nil_of_length_pos (by omega)), hrounds, hloop, parseAgain, hm]
  simp only [if_true]
  rw [if_neg (by decide), if_neg (by push_cast; omega)]

private theorem onRead_tops_up (hR : 16 ≤ recvBufSize) (h : c.Ordered) (hsize : c.clientInBuf.length = recvBufSize)
    {b : UInt8} {rest : List UInt8} (hone : c.unparsed = [b]) (hroom : c.inOffset + 7 ≤ recvBufSize)
    (hmore : recvBufSize ≤ c.inOffset + rest.length)
    (hfills : Fills recvBufSize c.packetOffset (parseHeader (b :: rest)).1) :
    ∃ c' : Client, c'.inOffset = recvBufSize ∧
      onRead recvBufSize parsesAll c (.bytes (rest.take (recvBufSize - c.inOffset))) = (none, c') := by
  have hcut : (rest.take (recvBufSize - c.inOffset)).length = recvBufSize - c.inOffset :=
    List.length_take_of_le (by omega)
  have hword := parseHeader_append (u := b :: rest.take (recvBufSize - c.inOffset))
    (by rw [List.length_cons]; omega) (rest.drop (recvBufSize - c.inOffset))
  rw [List.cons_append, List.take_append_drop] at hword
  generalize rest.take (recvBufSize - c.inOffset) = data at hcut hword ⊢
  rw [onRead_bytes (List.ne_nil_of_length_pos (by omega))]
  refine parseAgain_fills hR (h.read (by omega)) ?_ ?_ _
  · change c.inOffset + data.length = recvBufSize
    omega
  · rw [Client.unparsed_read h, hone, List.singleton_append, ← hword]
    exact hfills

private theorem exists_filling (hR : 16 ≤ recvBufSize) (hidle : c.Idle recvBufSize) {buffered : List Frame}
    {tail : List UInt8} (hacc : Acceptable recvBufSize buffered) (hlast : (encodeAll buffered).length + 1 < 2147483648)
    (hmore : recvBufSize ≤ (encodeAll buffered).length + tail.length)
    (hfills : Fills recvBufSize (encodeAll buffered).length (parseHeader tail).1) :
    ∃ (results : List ReadResult) (c' : Client), bytesOf results <+: encodeAll buffered ++ tail ∧
      Fits recvBufSize parsesAll c results ∧ c'.inOffset = recvBufSize ∧
      handleClient recvBufSize parsesAll c results = (none, c') := by
  by_cases hzero : (encodeAll buffered).length = 0
  · rw [List.length_eq_zero_iff.1 hzero] at hfills hmore ⊢
    rw [List.length_nil, Nat.zero_add] at hmore
    have hcut : (tail.take recvBufSize).length = recvBufSize := List.length_take_of_le hmore
    have hword := parseHeader_append (u := tail.take recvBufSize) (by omega) (tail.drop recvBufSize)
    rw [List.take_append_drop] at hword
    obtain ⟨c', hin, honce⟩ := onRead_fills hR hidle hcut (hword ▸ hfills)
    refine ⟨[.bytes (tail.take recvBufSize)], c', ?_, ⟨?_, ?_⟩, hin, ?_⟩
    · simpa [bytesOf, ReadResult.data] using List.take_prefix _ _
    · rw [hidle.inOffset]
      exact hcut.le
    · rw [honce]
      trivial
    · rw [handleClient, honce]
      rfl
  · -- only a negative number is asked for behind packets, and only with 2 GiB of unparsed bytes
    have hfar : (encodeAll buffered).length + 2147483648 ≤ recvBufSize := by
      rw [Fills, seenBytes, toSigned_32, toSigned_32] at hfills
      omega
    obtain ⟨b, rest, rfl⟩ : ∃ b rest, tail = b :: rest :=
      List.exists_cons_of_ne_nil (List.ne_nil_of_length_pos (by omega))
    rw [List.length_cons] at hmore
    obtain ⟨d, hord, hsize, hone, hin, hpacket, hfirst⟩ := onRead_leaves hidle hacc hlast (by omega) b
    obtain ⟨c', hin', hsecond⟩ := onRead_tops_up hR hord hsize hone (by omega) (by omega) (hpacket.symm ▸ hfills)
    refine ⟨[.bytes (encodeAll buffered ++ [b]), .bytes (rest.take (recvBufSize - d.inOffset))], c', ?_, ⟨?_, ?_⟩, hin', ?_⟩
    · have hprefix : rest.take (recvBufSize - d.inOffset) <+: rest := List.take_prefix _ _
      simpa [bytesOf, ReadResult.data] using hprefix
    · rw [hidle.inOffset, ReadResult.data, List.length_append, List.length_singleton]
      omega
    · rw [hfirst]
      refine ⟨List.length_take_le _ _, ?_⟩
      rw [hsecond]
      trivial
    · rw [handleClient, hfirst]
      change handleClient recvBufSize parsesAll d [.bytes (rest.take (recvBufSize - d.inOffset))] = _
      rw [handleClient, hsecond]
      rfl

private theorem passingFit_of_readsWithRoom (hR : 16 ≤ recvBufSize) {stream : List UInt8}
    (hroom : ReadsWithRoom recvBufSize stream) : PassingFit recvBufSize stream := by
  intro done buffered tail hstream hall hlast hmore hfills
  have hacc : Acceptable recvBufSize (done ++ buffered) := fun f hf => ⟨(hall f hf).passes, (hall f hf).small⟩
  obtain ⟨d, hidle, -, hlater⟩ := handleClient_singly (fun f hf => hacc f (List.mem_append_left _ hf))
    (fun f hf => (hall f (List.mem_append_left _ hf)).fits) (Client.idle_new recvBufSize)
  obtain ⟨results, c, hbytes, hfits, hin, hwait⟩ :=
    exists_filling hR hidle (fun f hf => hacc f (List.mem_append_right _ hf)) hlast hmore hfills
  obtain ⟨hrun, hfits'⟩ := hlater results
  have hsent : bytesOf (done.map (.bytes ·.encode) ++ results) = encodeAll done ++ bytesOf results := by
    simp [bytesOf, encodeAll, List.flatMap_map, ReadResult.data]
  have hlt := hroom parsesAll _ c (by
    rw [hsent, hstream, encodeAll_append, List.append_assoc]
    exact (List.prefix_append_right_inj _).mpr hbytes) (hfits' hfits) (hrun.trans hwait)
  omega

theorem lossless_passing_iff (hR : 16 ≤ recvBufSize) (fs : List Frame) :
    Lossless recvBufSize fs ↔
      (∀ f ∈ fs, f.body.length ≤ toUnsigned 32 recvBufSize ∧ f.size ≤ recvBufSize) ∧
        (recvBufSize < 2147483648 ∨ (encodeAll fs).length < 2147483648) ∧ NeverOverflows recvBufSize fs := by
  rcases forall_or_first_not (fun f : Frame => f.size ≤ recvBufSize) fs with hroom | ⟨a, f, t, rfl, ha, hf⟩
  · constructor
    · intro hlossless
      obtain ⟨hacc, hsmall, hover⟩ := hlossless.conditions hR hroom
      exact ⟨fun f hf => ⟨(hacc f hf).1, hroom f hf⟩, hsmall, hover⟩
    · rintro ⟨hfit, hsmall, hover⟩
      exact lossless_of_settles hR hroom (fun f hf => (hfit f hf).1) hsmall hover
  refine iff_of_false (fun hlossless => ?_) fun h => hf (h.1 f (by simp)).2
  rcases forall_or_first_not
    (fun g : Frame => g.body.length ≤ toUnsigned 32 recvBufSize ∧ g.size < 2147483648) (a ++ [f]) with
    hacc | ⟨a', g, t', hsplit, hacc, hg⟩
  · -- the packet passes, and is longer than a buffer that is below 2 GiB
    obtain ⟨hpass, hsmall⟩ := hacc f (by simp)
    have hsize : f.encode.length = 8 + f.body.length := by rw [Frame.length_encode, Frame.size]
    have hlong : recvBufSize < f.size := not_le.mp hf
    have hbody : f.size = 8 + f.body.length := rfl
    have hcut : (f.encode.take recvBufSize).length = recvBufSize := by
      rw [List.length_take]
      omega
    have hword : (parseHeader (f.encode.take recvBufSize)).1 = f.body.length := by
      apply Client.parseHeader_of_prefix (t := []) _ (by omega)
      rw [List.append_nil]
      exact List.take_prefix _ _
    have hfills : Fills recvBufSize 0 f.body.length := by
      right
      rw [seenBytes, toSigned_32_eq (by omega) (by omega)]
      omega
    refine absurd hlossless (not_lossless (f.encode.take recvBufSize)
      (f.encode.drop recvBufSize ++ encodeAll t) (fun g hg => hacc g (List.mem_append_left _ hg))
      ha ?_ (List.ne_nil_of_length_pos (by omega)) (by omega) ?_)
    · rw [encodeAll_cons, ← List.append_assoc, List.take_append_drop]
    · intro c c' hidle _ hread
      obtain ⟨d, hin, honce⟩ := onRead_fills hR hidle hcut (hword ▸ hfills)
      rw [honce] at hread
      cases hread
      refine .inl ⟨List.ne_nil_of_length_pos ?_, hin.ge⟩
      rw [List.length_append, List.length_drop]
      omega
  · -- an earlier one, or this one, ends the loop at its header
    have hfront : a' <+: a := by
      refine List.prefix_of_prefix_length_le ⟨g :: t', hsplit.symm⟩ (List.prefix_append a [f]) ?_
      have hlength := congrArg List.length hsplit
      simp only [List.length_append, List.length_cons, List.length_nil] at hlength
      omega
    have hwhole : a ++ f :: t = a' ++ g :: (t' ++ t) := by
      rw [← List.cons_append, ← List.append_assoc, ← hsplit, List.append_assoc, List.singleton_append]
    rw [hwhole] at hlossless
    exact not_lossless_of_unacceptable hR hacc (fun x hx => ha x (hfront.subset hx)) hg hlossless

end Filling

/-- Which packets that pass the size check can be completed, for every size of the buffer. On every stream of bytes,
cut in every way, `Read` always has room exactly if nothing in the stream fills the buffer, at the places where the
reader meets it: below 2 GiB, if no packet that passes the check is longer than the buffer with its header. A stream of
packets is received in full, cut in every way, exactly if they all pass the check and fit the buffer with their
headers, they are counted right, and none is refused for want of room behind others. -/
theorem passing_packets_complete_iff (recvBufSize : Nat) (hR : 16 ≤ recvBufSize) :
    (∀ stream, ReadsWithRoom recvBufSize stream ↔ PassingFit recvBufSize stream) ∧
    (∀ fs : List Frame, Lossless recvBufSize fs ↔
      (∀ f ∈ fs, f.body.length ≤ toUnsigned 32 recvBufSize ∧ f.size ≤ recvBufSize) ∧
        (recvBufSize < 2 ^ 31 ∨ (encodeAll fs).length < 2 ^ 31) ∧ NeverOverflows recvBufSize fs) :=
  ⟨fun _ => ⟨passingFit_of_readsWithRoom hR, readsWithRoom_of_passingFit hR⟩, fun fs => lossless_passing_iff hR fs⟩

def snugFrame : Frame := ⟨1, List.replicate 24 7, by decide, by decide⟩

theorem passing_packets_complete_iff_snug :
    ReadsWithRoom 32 snugFrame.encode ∧ Lossless 32 [snugFrame] := by
  obtain ⟨hreads, hall⟩ := passing_packets_complete_iff 32 (by decide)
  refine ⟨(hreads _).mpr ?_, (hall [snugFrame]).mpr ⟨?_, .inl (by decide), ?_⟩⟩
  · rw [passingFit_iff_of_small (by decide) (by decide)]
    intro fs tail hstream _ hlen _
    have hwhole := congrArg List.length hstream
    rw [List.length_append, Frame.length_encode] at hwhole
    have hnone : encodeAll fs = [] := by
      rw [← List.length_eq_zero_iff]
      change 32 = _ at hwhole
      omega
    rw [hnone, List.nil_append] at hstream
    rw [← hstream]
    decide
  · intro f hf
    obtain rfl := List.mem_singleton.1 hf
    rw [toUnsigned_32]
    decide
  · intro done buffered f todo hsplit _
    left
    have hlen := congrArg List.length hsplit
    simp only [List.length_append, List.length_cons, List.length_nil] at hlen
    obtain rfl : done = [] := List.eq_nil_of_length_eq_zero (by omega)
    obtain rfl : buffered = [] := List.eq_nil_of_length_eq_zero (by omega)
    obtain ⟨rfl, -⟩ := List.cons.inj hsplit
    decide

/-- A packet with a body of 9 bytes for a buffer of 16 bytes: it passes the size check, its first
16 bytes fill the buffer, and the empty `Read` that follows is taken for the end of the
connection. -/
theorem nine_bytes_fill_sixteen :
    let frame : Frame := ⟨1, List.replicate 9 7, by decide, by decide⟩
    let results : List ReadResult := [.bytes (frame.encode.take 16)]
    frame.body.length ≤ 16 ∧ Fits 16 parsesAll (Client.new 16) (results ++ [.bytes []]) ∧
      (handleClient 16 parsesAll (Client.new 16) results).1 = none ∧
      (handleClient 16 parsesAll (Client.new 16) results).2.inOffset = 16 ∧
      (handleClient 16 parsesAll (Client.new 16) (results ++ [.bytes []])).1 = some .closed ∧
      ¬ReadsWithRoom 16 frame.encode := by
  intro frame results
  have hfits : Fits 16 parsesAll (Client.new 16) results := by decide +kernel
  have hwait : (handleClient 16 parsesAll (Client.new 16) results).1 = none := by decide +kernel
  have hfull : (handleClient 16 parsesAll (Client.new 16) results).2.inOffset = 16 := by
    decide +kernel
  refine ⟨by decide, by decide +kernel, hwait, hfull, by decide +kernel, ?_⟩
  intro hroom
  have hlast := hroom parsesAll results _ (by decide) hfits (Prod.ext hwait rfl)
  exact absurd hlast (by rw [hfull]; decide)

end PinpointAgent.Server
