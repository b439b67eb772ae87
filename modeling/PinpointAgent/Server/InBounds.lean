import PinpointAgent.Server.Lossless

/-!
# The packet reader stays in bounds

For buffers of at most 1 GiB no conversion of `matchFullPacket` wraps, so none of its slice
expressions panics, whatever lengths the packets claim. Together with the soundness of the reader
this describes every point of the loop of `handleClient`.
-/

namespace PinpointAgent.Server

open Framework

/-- The reference: the frames at the front of a stream, of any length the header can hold. -/
def referenceFrames (stream : List UInt8) : List Frame := (parseFrames 4294967295 stream).state

private theorem prefix_referenceFrames (fs : List Frame) (rest : List UInt8) :
    fs <+: referenceFrames (encodeAll fs ++ rest) := by
  have hlimit : ∀ f ∈ fs, f.body.length ≤ 4294967295 := by
    intro f _
    have := f.body_lt
    omega
  rw [referenceFrames, parseFrames_encodeAll hlimit]
  exact List.prefix_append _ _

private theorem isSome_sliceExpr {buffer : List UInt8} {lo hi : Int} (hlo : 0 ≤ lo) (hle : lo ≤ hi)
    (hhi : hi ≤ buffer.length) : (sliceExpr buffer lo hi).isSome := by
  rw [sliceExpr, if_pos ⟨hlo, hle, hhi⟩, Option.isSome_some]

namespace Client

/-- What holds at every point of the loop: `stream` are the bytes read so far. -/
structure InBounds (c : Client) (recvBufSize : Nat) (stream : List UInt8) : Prop where
  packet_le : c.packetOffset ≤ c.inOffset
  in_le : c.inOffset ≤ recvBufSize
  /-- `clientInBuf[inOffset:]` -/
  free : (sliceExpr c.clientInBuf c.inOffset c.clientInBuf.length).isSome
  /-- `clientInBuf[packetOffset:inOffset]`, the source of the compaction -/
  source : sliceExpr c.clientInBuf c.packetOffset c.inOffset = some c.unparsed
  /-- `clientInBuf[0:unParsedSize]`, its target -/
  target : (sliceExpr c.clientInBuf 0 (c.inOffset - c.packetOffset : Int)).isSome
  /-- The packets handed over and the unparsed bytes are the bytes read, and no packet is
  repeated, reordered or altered: they are a prefix of the reference parse of all that comes. -/
  handed : ∃ fs : List Frame, c.handed = fs.map Packet.ofFrame ∧ stream = encodeAll fs ++ c.unparsed ∧
    ∀ rest, fs <+: referenceFrames (stream ++ rest)

variable {c : Client} {recvBufSize : Nat} {stream : List UInt8}

private theorem Sound.inBounds (h : c.Sound recvBufSize stream) : c.InBounds recvBufSize stream := by
  obtain ⟨hpn, hin, -⟩ := h.ordered
  have hsize := h.size
  obtain ⟨fs, hfs, hs⟩ := h.handed
  refine ⟨hpn, by omega, isSome_sliceExpr (by omega) (by omega) le_rfl, ?_,
    isSome_sliceExpr le_rfl (by omega) (by omega), fs, hfs, hs, fun rest => ?_⟩
  · rw [sliceExpr, if_pos (by omega)]
    rfl
  · rw [hs, List.append_assoc]
    exact prefix_referenceFrames fs _

private theorem length_words {w : Nat} (hw : w ≤ 1073741824) :
    toSigned 32 (w : Int) = w ∧ toSigned 32 ((wordAdd 32 w 8 : Nat) : Int) = w + 8 := by
  have hadd : wordAdd 32 w 8 = w + 8 := by
    rw [wordAdd_32]
    omega
  refine ⟨toSigned_32_eq (by omega) (by omega), ?_⟩
  rw [hadd, toSigned_32_eq (by omega) (by omega)]
  omega

private theorem isSome_body {buffer : List UInt8} {p w : Nat} (h : p + 8 + w ≤ buffer.length)
    (hbuffer : buffer.length ≤ 1073741824) :
    (sliceExpr buffer (toSigned 32 ((p : Int) + clientHeaderSize))
      (toSigned 32 ((p : Int) + clientHeaderSize + w))).isSome := by
  rw [clientHeaderSize]
  have hlo : toSigned 32 ((p : Int) + 8) = p + 8 := toSigned_32_eq (by omega) (by omega)
  have hhi : toSigned 32 ((p : Int) + 8 + w) = p + 8 + w := toSigned_32_eq (by omega) (by omega)
  rw [hlo, hhi]
  exact isSome_sliceExpr (by omega) (by omega) (by omega)

private theorem matchPacket_isSome (h : c.Sound recvBufSize stream) (hR : recvBufSize ≤ 1073741824) :
    (c.matchPacket recvBufSize).isSome := by
  have hlen := length_unparsed h.ordered
  have hpn := h.ordered.packet_le
  have hin := h.ordered.in_le
  have hsize := h.size
  have hn : c.inOffset < 2147483648 := by omega
  by_cases h8 : c.unparsed.length < 8
  · rw [matchPacket_header h.ordered hn h8, Option.isSome_some]
  · have hunsigned : toUnsigned 32 recvBufSize = recvBufSize := by
      rw [toUnsigned_32]
      omega
    rw [matchPacket_eq h.ordered hn (by omega), hunsigned]
    generalize (parseHeader c.unparsed).1 = w
    by_cases hbig : recvBufSize < w
    · rw [if_pos hbig, Option.isSome_some]
    · obtain ⟨hword, hsum⟩ := length_words (w := w) (by omega)
      rw [if_neg hbig, hsum, hword]
      by_cases hshort : (c.unparsed.length : Int) < w + 8
      · rw [if_pos hshort, Option.isSome_some]
      · have hend : c.packetOffset + 8 + w ≤ c.inOffset := by omega
        rw [if_neg hshort, Option.isSome_map]
        exact isSome_body (by omega) (by omega)

end Client

section Runs

variable {recvBufSize : Nat} {parsePacketFails : List Packet → Bool}

private theorem parseAgain_not_panicked (hR : recvBufSize ≤ 1073741824) (rounds : Nat) {c : Client}
    {stream : List UInt8} (h : c.Sound recvBufSize stream) :
    (parseAgain recvBufSize parsePacketFails rounds c).1 ≠ some .panicked := by
  induction rounds generalizing c with
  | zero => simp [parseAgain]
  | succ rounds ih =>
    rw [parseAgain]
    cases hm : c.matchPacket recvBufSize with
    | none =>
      have := Client.matchPacket_isSome h hR
      rw [hm] at this
      contradiction
    | some m =>
      by_cases htoken : m.token = 0
      · simp only [htoken, if_true]
        split
        · simp
        · split
          · split <;> simp
          · simp
      · simp only [htoken, if_false]
        split
        · simp
        · split
          · simp
          · exact ih (h.hand hm htoken)

private theorem handleClient_head {c c' : Client} {stream : List UInt8} (h : c.Sound recvBufSize stream)
    {results : List ReadResult} (hfits : Fits recvBufSize parsePacketFails c results)
    (hhead : handleClient recvBufSize parsePacketFails c results = (none, c')) :
    c'.Sound recvBufSize (stream ++ bytesOf results) := by
  induction results generalizing c stream with
  | nil =>
    cases hhead
    simpa [bytesOf] using h
  | cons result results ih =>
    obtain ⟨hroom, hnext⟩ := hfits
    have hread : (onRead recvBufSize parsePacketFails c result).2.Sound recvBufSize
        (stream ++ result.data) := onRead_sound h hroom
    rw [handleClient] at hhead
    rcases honce : onRead recvBufSize parsePacketFails c result with ⟨_ | exit, d⟩
    · rw [honce] at hread hnext hhead
      have hlater := ih hread hnext hhead
      rwa [List.append_assoc] at hlater
    · rw [honce] at hhead
      cases hhead

private theorem parseAgain_stable {n m : Nat} {c : Client} {stream : List UInt8}
    (h : c.Sound recvBufSize stream) (hn : c.unparsed.length < n) (hm : n ≤ m) :
    parseAgain recvBufSize parsePacketFails m c = parseAgain recvBufSize parsePacketFails n c := by
  induction n generalizing m c with
  | zero => omega
  | succ n ih =>
    obtain ⟨m, rfl⟩ : ∃ k, m = k + 1 := ⟨m - 1, by omega⟩
    rw [parseAgain, parseAgain]
    cases hmatch : c.matchPacket recvBufSize with
    | none => rfl
    | some found =>
      by_cases htoken : found.token = 0
      · simp only [htoken, if_true]
      · have hshorter : (c.hand found).unparsed.length < c.unparsed.length := by
          obtain ⟨f, rest, hbytes, -, hlt, rfl⟩ := Client.matchPacket_sound h.ordered hmatch htoken
          obtain ⟨-, hrest, -⟩ := Client.hand_frame h.ordered hbytes hlt rfl
          rw [hrest, hbytes, List.length_append, Frame.length_encode]
          have := f.size_pos
          omega
        have hlater := ih (m := m) (h.hand hmatch htoken) (by omega) (by omega)
        simp only [htoken, if_false, hlater]

/-- For every buffer of at most 1 GiB, every stream and every segmentation of it: the loop of
`handleClient` is in bounds at its head, and after the next `Read` it is in bounds at every
return to the label `ParseAgain` and where it leaves; no slice expression of `matchFullPacket`
panics, and the rounds at the label come to an end. -/
theorem packet_reader_in_bounds (recvBufSize : Nat) (hR : recvBufSize ≤ 2 ^ 30)
    (parsePacketFails : List Packet → Bool) (results : List ReadResult) (c : Client)
    (hfits : Fits recvBufSize parsePacketFails (Client.new recvBufSize) results)
    (hhead : handleClient recvBufSize parsePacketFails (Client.new recvBufSize) results =
      (none, c)) :
    c.InBounds recvBufSize (bytesOf results) ∧
    ∀ data : List UInt8, data.length ≤ recvBufSize - c.inOffset →
      (∀ rounds,
        (parseAgain recvBufSize parsePacketFails rounds (c.read data)).1 ≠ some .panicked ∧
        (parseAgain recvBufSize parsePacketFails rounds (c.read data)).2.InBounds recvBufSize
          (bytesOf results ++ data)) ∧
      ∀ rounds, (c.read data).inOffset + 1 ≤ rounds →
        parseAgain recvBufSize parsePacketFails rounds (c.read data) =
          parseAgain recvBufSize parsePacketFails ((c.read data).inOffset + 1) (c.read data) := by
  have hR : recvBufSize ≤ 1073741824 := hR
  have hsound : c.Sound recvBufSize (bytesOf results) :=
    handleClient_head (Client.sound_new recvBufSize) hfits hhead
  refine ⟨hsound.inBounds, fun data hroom => ?_⟩
  have hread : (c.read data).Sound recvBufSize (bytesOf results ++ data) := by
    have hin := hsound.ordered.in_le
    have hsize := hsound.size
    exact hsound.read (by omega)
  refine ⟨fun rounds => ?_, fun rounds hrounds => ?_⟩
  · exact ⟨parseAgain_not_panicked hR rounds hread, (parseAgain_sound rounds hread).inBounds⟩
  · have hlen := Client.length_unparsed hread.ordered
    exact parseAgain_stable hread (by omega) hrounds

end Runs

def cutPacket : List ReadResult := [.bytes [0, 0, 0, 1, 0, 0, 0, 2, 7], .bytes [8, 0, 0, 0]]

theorem packet_reader_in_bounds_cut_packet :
    (handleClient 32 parsesAll (Client.new 32) cutPacket).2.handed = [⟨2, 1, [7, 8]⟩] ∧
      (handleClient 32 parsesAll (Client.new 32) cutPacket).2.InBounds 32 (bytesOf cutPacket) := by
  have hfits : Fits 32 parsesAll (Client.new 32) cutPacket := by decide +kernel
  have hexit : (handleClient 32 parsesAll (Client.new 32) cutPacket).1 = none := by decide +kernel
  exact ⟨by decide +kernel,
    (packet_reader_in_bounds 32 (by decide) parsesAll cutPacket _ hfits (Prod.ext hexit rfl)).1⟩

end PinpointAgent.Server
