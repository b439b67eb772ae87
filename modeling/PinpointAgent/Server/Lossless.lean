import PinpointAgent.Framework.Lists
import PinpointAgent.Server.HandleClient

/-!
# When the packet reader loses nothing

A stream of packets that each fit the buffer is read completely, however it is cut into `Read`
results, exactly if three conditions hold. The first two are about the `uint32` and `int32`
conversions and can only fail for buffers of at least 2 GiB. The third one is about every buffer:
`handleClient` moves the unparsed bytes to the front only when the packet it waits for needs no
more than half of the buffer, and gives up otherwise. A packet with a longer body that begins
behind other packets, so that it ends beyond the buffer, is lost if its header is read with them.
-/

namespace PinpointAgent.Server

open Framework

namespace Client

section Exact

variable {c : Client} {recvBufSize : Nat}

theorem matchPacket_header (h : c.Ordered) (hn : c.inOffset < 2147483648)
    (h8 : c.unparsed.length < 8) :
    c.matchPacket recvBufSize = some { token := 0, needs := 8 - c.unparsed.length } := by
  have hlen := length_unparsed h
  have hpn := h.packet_le
  have htotal : toSigned 32 ((c.inOffset : Int) - c.packetOffset) = c.unparsed.length := by
    rw [toSigned_32_eq (by omega) (by omega)]
    omega
  have hneeds : toSigned 32 (clientHeaderSize - c.unparsed.length) = 8 - c.unparsed.length := by
    rw [clientHeaderSize, toSigned_32_eq (by omega) (by omega)]
  rw [matchPacket, matchFullPacket, htotal, if_pos (by rw [clientHeaderSize]; omega), hneeds]

theorem matchPacket_eq (h : c.Ordered) (hn : c.inOffset < 2147483648)
    (h8 : 8 ≤ c.unparsed.length) :
    c.matchPacket recvBufSize =
      if toUnsigned 32 recvBufSize < (parseHeader c.unparsed).1 then
        some { token := 0, needs := 0 }
      else if (c.unparsed.length : Int) < toSigned 32 (wordAdd 32 (parseHeader c.unparsed).1 8) then
        some
          { token := 0
            needs := toSigned 32
              (toSigned 32 (parseHeader c.unparsed).1 + clientHeaderSize - c.unparsed.length) }
      else
        (sliceExpr c.clientInBuf (toSigned 32 (c.packetOffset + clientHeaderSize))
          (toSigned 32 (c.packetOffset + clientHeaderSize +
            toSigned 32 (parseHeader c.unparsed).1))).map fun body =>
            { token := toSigned 32 (toSigned 32 (parseHeader c.unparsed).1 + clientHeaderSize)
              needs := 0
              packetLen := toSigned 32 (parseHeader c.unparsed).1
              packetType := toSigned 32 (parseHeader c.unparsed).2
              body } := by
  have hlen := length_unparsed h
  obtain ⟨hpn, hin, hp⟩ := h
  have htotal : toSigned 32 ((c.inOffset : Int) - c.packetOffset) = c.unparsed.length := by
    rw [toSigned_32_eq (by omega) (by omega)]
    omega
  have hstart : toSigned 32 (c.packetOffset : Int) = c.packetOffset :=
    toSigned_32_eq (by omega) (by omega)
  have hend : toSigned 32 ((c.packetOffset : Int) + c.unparsed.length) = c.inOffset := by
    rw [toSigned_32_eq (by omega) (by omega)]
    omega
  have hhead : sliceExpr c.clientInBuf c.packetOffset c.inOffset = some c.unparsed := by
    rw [sliceExpr, if_pos (by omega)]
    rfl
  rw [matchPacket, matchFullPacket, htotal, hstart, hend,
    if_neg (by rw [clientHeaderSize]; omega), hhead, Option.bind_some]

private theorem matchPacket_oversized (h : c.Ordered) (hn : c.inOffset < 2147483648)
    (h8 : 8 ≤ c.unparsed.length) (hbig : toUnsigned 32 recvBufSize < (parseHeader c.unparsed).1) :
    c.matchPacket recvBufSize = some { token := 0, needs := 0 } := by
  rw [matchPacket_eq h hn h8, if_pos hbig]

private theorem matchPacket_needs (h : c.Ordered) (hn : c.inOffset < 2147483648)
    (h8 : 8 ≤ c.unparsed.length) {w : Nat} (hw : (parseHeader c.unparsed).1 = w)
    (hle : w ≤ toUnsigned 32 recvBufSize) (hlt : 8 + w < 2147483648)
    (hshort : c.unparsed.length < 8 + w) :
    c.matchPacket recvBufSize = some { token := 0, needs := 8 + w - c.unparsed.length } := by
  have hsum : wordAdd 32 w 8 = w + 8 := wordAdd_of_lt (by clear * - hlt; omega)
  have hfull : toSigned 32 ((w + 8 : Nat) : Int) = (w + 8 : Nat) :=
    toSigned_32_eq (by clear * - hlt; omega) (by clear * - hlt; omega)
  have hsmall : toSigned 32 (w : Int) = w :=
    toSigned_32_eq (by clear * - hlt; omega) (by clear * - hlt; omega)
  have hneeds : toSigned 32 ((w : Int) + clientHeaderSize - c.unparsed.length) =
      8 + w - c.unparsed.length := by
    rw [clientHeaderSize, toSigned_32_eq (by clear * - hlt hshort; omega)
      (by clear * - hlt hshort; omega)]
    ring
  rw [matchPacket_eq h hn h8, hw, if_neg (by omega), hsum, hfull, if_pos (by omega), hsmall, hneeds]

private theorem matchPacket_panics (h : c.Ordered) (hn : c.inOffset < 2147483648)
    (h8 : 8 ≤ c.unparsed.length) {w : Nat} (hw : (parseHeader c.unparsed).1 = w)
    (hle : w ≤ toUnsigned 32 recvBufSize) (hge : 2147483648 ≤ 8 + w) :
    c.matchPacket recvBufSize = none := by
  have hlen := length_unparsed h
  obtain ⟨hpn, hin, hp⟩ := id h
  have hw32 : w < 4294967296 := by
    rw [toUnsigned_32] at hle
    omega
  have hsum : toSigned 32 (wordAdd 32 w 8) ≤ c.unparsed.length := by
    rw [wordAdd_32, toSigned_32]
    omega
  have hlow : toSigned 32 (c.packetOffset + clientHeaderSize) = c.packetOffset + 8 := by
    rw [clientHeaderSize, toSigned_32_eq (by omega) (by omega)]
  have hhigh : toSigned 32 (c.packetOffset + clientHeaderSize + toSigned 32 w) <
      c.packetOffset + 8 := by
    rw [clientHeaderSize]
    by_cases hw31 : w < 2147483648
    · rw [toSigned_32_natCast hw31, toSigned_32_wrap (by omega) (by omega)]
      omega
    · rw [toSigned_32_wrap (a := (w : Int)) (by omega) (by omega),
        toSigned_32_eq (by omega) (by omega)]
      omega
  have hbody : sliceExpr c.clientInBuf (toSigned 32 (c.packetOffset + clientHeaderSize))
      (toSigned 32 (c.packetOffset + clientHeaderSize + toSigned 32 w)) = none := by
    rw [sliceExpr, if_neg]
    intro hbounds
    rw [hlow] at hbounds
    exact absurd hbounds.2.1 (not_le.mpr hhigh)
  rw [matchPacket_eq h hn h8, hw, if_neg (by omega), if_neg (by omega), hbody,
    Option.map_none]

private theorem matchPacket_wrapped (h : c.Ordered) (hlo : 2147483648 ≤ c.unparsed.length)
    (hhi : c.unparsed.length < 4294967296) :
    ∃ needs, needs ≠ 0 ∧ c.matchPacket recvBufSize = some { token := 0, needs } := by
  have hlen := length_unparsed h
  have hpn := h.packet_le
  have htotal : toSigned 32 ((c.inOffset : Int) - c.packetOffset) =
      c.unparsed.length - 4294967296 := by
    rw [toSigned_32_wrap (by omega) (by omega)]
    omega
  refine ⟨_, ?_, by rw [matchPacket, matchFullPacket, htotal,
    if_pos (by rw [clientHeaderSize]; omega)]⟩
  rw [clientHeaderSize, toSigned_32]
  omega

private theorem parseHeader_encode (f : Frame) (t : List UInt8) :
    parseHeader (f.encode ++ t) = (f.body.length, f.type) := by
  rw [parseHeader, encode_drop_four, readBe32_be32 f.body_lt, Frame.encode, List.append_assoc,
    List.append_assoc, readBe32_be32 f.type_lt]

theorem parseHeader_of_prefix {f : Frame} {u t : List UInt8} (h : u <+: f.encode ++ t)
    (h8 : 8 ≤ u.length) : (parseHeader u).1 = f.body.length := by
  obtain ⟨v, hv⟩ := h
  have hwhole := congrArg Prod.fst (parseHeader_encode f t)
  rw [← hv] at hwhole
  change readBe32 ((u ++ v).drop 4) = f.body.length at hwhole
  rw [List.drop_append_of_le_length (by omega),
    readBe32_append (by rw [List.length_drop]; omega)] at hwhole
  exact hwhole

private theorem matchPacket_frame (h : c.Ordered) (hn : c.inOffset < 2147483648) {f : Frame}
    {rest : List UInt8} (hbytes : c.unparsed = f.encode ++ rest)
    (hle : f.body.length ≤ toUnsigned 32 recvBufSize) :
    c.matchPacket recvBufSize =
      some ⟨f.size, 0, toSigned 32 f.body.length, toSigned 32 f.type, f.body⟩ := by
  have hlen := length_unparsed h
  have hsize : c.unparsed.length = 8 + f.body.length + rest.length := by
    rw [hbytes, List.length_append, Frame.length_encode, Frame.size]
  obtain ⟨hpn, hin, hp⟩ := id h
  have hsmall : toSigned 32 (f.body.length : Int) = f.body.length :=
    toSigned_32_natCast (by omega)
  have hsum : toSigned 32 (wordAdd 32 f.body.length 8) = f.body.length + 8 := by
    rw [wordAdd_32, toSigned_32]
    omega
  have htoken : toSigned 32 ((f.body.length : Int) + clientHeaderSize) = f.size := by
    rw [clientHeaderSize, toSigned_32_eq (by omega) (by omega), Frame.size]
    omega
  have hbody : sliceExpr c.clientInBuf (toSigned 32 (c.packetOffset + clientHeaderSize))
      (toSigned 32 (c.packetOffset + clientHeaderSize + f.body.length)) = some f.body := by
    rw [clientHeaderSize, toSigned_32_eq (by omega) (by omega),
      toSigned_32_eq (by omega) (by omega), sliceExpr, if_pos (by omega)]
    have hlow : ((c.packetOffset : Int) + 8).toNat = c.packetOffset + 8 := by omega
    have hhigh : ((c.packetOffset : Int) + 8 + f.body.length).toNat =
        c.packetOffset + 8 + f.body.length := by omega
    rw [hlow, hhigh, ← unparsed_body (by omega), hbytes]
    simp [Frame.encode, be32]
  have hheader : parseHeader c.unparsed = (f.body.length, f.type) := by
    rw [hbytes, parseHeader_encode]
  rw [matchPacket_eq h hn (by omega), congrArg Prod.fst hheader, congrArg Prod.snd hheader,
    if_neg (not_lt.mpr hle), hsum, if_neg (by omega), hsmall, hbody, Option.map_some, htoken]

end Exact

end Client

def parsesAll : List Packet → Bool := fun _ => false

private theorem parseAgain_frame {c : Client} {recvBufSize : Nat} (h : c.Ordered)
    (hn : c.inOffset < 2147483648) {f : Frame} {rest : List UInt8}
    (hbytes : c.unparsed = f.encode ++ rest) (hle : f.body.length ≤ toUnsigned 32 recvBufSize)
    (fuel : Nat) :
    ∃ c' : Client, c'.Ordered ∧ c'.unparsed = rest ∧
      c'.handed = c.handed ++ [Packet.ofFrame f] ∧ c'.clientInBuf = c.clientInBuf ∧
      c'.inOffset = c.inOffset ∧ c'.packetOffset = c.packetOffset + f.size ∧
      parseAgain recvBufSize parsesAll (fuel + 1) c =
        if rest = [] then (none, c'.backToStart) else parseAgain recvBufSize parsesAll fuel c' := by
  have hlen := Client.length_unparsed h
  have hin := h.packet_le
  have hpos := f.size_pos
  rw [hbytes, List.length_append, Frame.length_encode] at hlen
  obtain ⟨hord, hrest, hhanded, hbuf, hoff, hpacket⟩ :=
    Client.hand_frame h hbytes (by omega) rfl
  refine ⟨_, hord, hrest, hhanded, hbuf, hoff, hpacket, ?_⟩
  have hend : c.packetOffset + f.size = c.inOffset ↔ rest = [] := by
    rw [← List.length_eq_zero_iff]
    omega
  rw [parseAgain, Client.matchPacket_frame h hn hbytes hle]
  simp only [parsesAll, hpacket, hoff, hend]
  rw [if_neg (by omega), if_neg (by simp)]

/-- The reader after a `Read`: of the stream `fs`, the packets `done` and `buffered` have been
handed over, and those in `buffered` still lie in front of the unparsed bytes. -/
structure Tracks (recvBufSize : Nat) (fs : List Frame) (s : List UInt8) (c : Client)
    (done buffered todo : List Frame) : Prop where
  ordered : c.Ordered
  size : c.clientInBuf.length = recvBufSize
  split : fs = done ++ buffered ++ todo
  handed : c.handed = (done ++ buffered).map Packet.ofFrame
  offset : c.packetOffset = (encodeAll buffered).length
  bytes : s = encodeAll (done ++ buffered) ++ c.unparsed

/-- The reader is ready for the next `Read`: it has room, and the next packet is incomplete. -/
structure Settled (recvBufSize : Nat) (fs : List Frame) (s : List UInt8) (c : Client) : Prop where
  room : c.inOffset < recvBufSize
  tracks : ∃ done buffered todo, Tracks recvBufSize fs s c done buffered todo ∧
    ∀ f ∈ todo.head?, c.unparsed.length < f.size

section Fitting

variable {recvBufSize : Nat} {fs : List Frame}

/-- Every packet passes the size check, and its length fits `int32`. -/
def Acceptable (recvBufSize : Nat) (fs : List Frame) : Prop :=
  ∀ f ∈ fs, f.body.length ≤ toUnsigned 32 recvBufSize ∧ f.size < 2147483648

/-- No packet is refused for want of room: when the part `buffered` of the stream and the header
of the packet behind it fit the buffer, the whole packet fits, or its body takes at most half. -/
def NeverOverflows (recvBufSize : Nat) (fs : List Frame) : Prop :=
  ∀ done buffered f todo, fs = done ++ buffered ++ f :: todo →
    (encodeAll buffered).length + 8 ≤ recvBufSize →
    (encodeAll buffered).length + f.size ≤ recvBufSize ∨ f.body.length ≤ recvBufSize / 2

private theorem Tracks.upcoming {s : List UInt8} {c : Client} {done buffered todo : List Frame}
    (h : Tracks recvBufSize fs s c done buffered todo) (hs : s <+: encodeAll fs) :
    c.unparsed <+: encodeAll todo := by
  rw [h.bytes, h.split, encodeAll_append (done ++ buffered) todo] at hs
  exact (List.prefix_append_right_inj _).mp hs

private theorem Tracks.compact {s : List UInt8} {c : Client} {done buffered todo : List Frame}
    (h : Tracks recvBufSize fs s c done buffered todo) :
    Tracks recvBufSize fs s c.compact (done ++ buffered) [] todo := by
  refine ⟨h.ordered.compact, (Client.length_compact h.ordered).trans h.size, by simp [h.split],
    by rw [List.append_nil]; exact h.handed, rfl, ?_⟩
  rw [Client.unparsed_compact h.ordered, List.append_nil]
  exact h.bytes

private theorem Tracks.read {s data : List UInt8} {c : Client} {done buffered todo : List Frame}
    (h : Tracks recvBufSize fs s c done buffered todo)
    (hfit : data.length ≤ recvBufSize - c.inOffset) :
    Tracks recvBufSize fs (s ++ data) (c.read data) done buffered todo := by
  have hroom : c.inOffset + data.length ≤ c.clientInBuf.length := by
    have hin := h.ordered.in_le
    have hsize := h.size
    omega
  refine ⟨h.ordered.read hroom, (length_writeAt hroom).trans h.size, h.split, h.handed, h.offset, ?_⟩
  rw [h.bytes, Client.unparsed_read h.ordered, List.append_assoc]

private theorem Tracks.inOffset_le {s : List UInt8} {c : Client} {done buffered todo : List Frame}
    (h : Tracks recvBufSize fs s c done buffered todo) :
    c.inOffset ≤ recvBufSize ∧ c.inOffset ≤ s.length := by
  have hlen := Client.length_unparsed h.ordered
  have hpn := h.ordered.packet_le
  have hin := h.ordered.in_le
  have hsize := h.size
  have hoff := h.offset
  have hbytes := congrArg List.length h.bytes
  rw [encodeAll_append, List.length_append, List.length_append] at hbytes
  omega

variable (hR : 16 ≤ recvBufSize) (hroom : ∀ f ∈ fs, f.size ≤ recvBufSize)
  (hacc : Acceptable recvBufSize fs) (hover : NeverOverflows recvBufSize fs)

include hR hroom hacc hover

private theorem parseAgain_incomplete {s : List UInt8} {c : Client} {done buffered todo : List Frame} {f : Frame}
    (h : Tracks recvBufSize fs s c done buffered (f :: todo)) (hs : s <+: encodeAll fs)
    (hn : c.inOffset < 2147483648) (hshort : c.unparsed.length < f.size)
    (hne : c.unparsed ≠ []) (fuel : Nat) :
    ∃ c', parseAgain recvBufSize parsesAll (fuel + 1) c = (none, c') ∧
      Settled recvBufSize fs s c' := by
  have hlen := Client.length_unparsed h.ordered
  have hpn := h.ordered.packet_le
  have hin := h.ordered.in_le
  have hsize := h.size
  have hpos := List.length_pos_iff.mpr hne
  have hmem : f ∈ fs := by
    rw [h.split]
    simp
  have hcap := hroom f hmem
  obtain ⟨hlimit, hint⟩ := hacc f hmem
  -- In both cases below the reader needs `needs` bytes, of a packet that ends in the buffer
  -- once it has been moved to the front.
  have hwait : ∀ needs : Nat, 0 < needs → c.unparsed.length + needs ≤ recvBufSize →
      (recvBufSize < c.inOffset + needs → needs ≤ recvBufSize / 2) →
      c.matchPacket recvBufSize = some { token := 0, needs := needs } →
      ∃ c', parseAgain recvBufSize parsesAll (fuel + 1) c = (none, c') ∧
        Settled recvBufSize fs s c' := by
    intro needs hneeds hfits hhalf hmatch
    rw [parseAgain, hmatch]
    simp only [if_true]
    rw [if_neg (by omega)]
    by_cases hfull : (recvBufSize : Int) - c.inOffset < needs
    · rw [if_pos hfull, if_neg (by have := hhalf (by omega); omega)]
      refine ⟨_, rfl, ?_, done ++ buffered, [], f :: todo, h.compact, ?_⟩
      · change c.inOffset - c.packetOffset < recvBufSize
        omega
      · rw [Client.unparsed_compact h.ordered]
        simpa using hshort
    · rw [if_neg hfull]
      exact ⟨_, rfl, by omega, done, buffered, f :: todo, h, by simpa using hshort⟩
  by_cases h8 : c.unparsed.length < 8
  · apply hwait (8 - c.unparsed.length) (by omega) (by omega) (by omega)
    rw [Client.matchPacket_header h.ordered hn h8]
    congr
    omega
  · have hword : (parseHeader c.unparsed).1 = f.body.length :=
      Client.parseHeader_of_prefix (h.upcoming hs) (by omega)
    rw [Frame.size] at hshort hint hcap
    apply hwait (8 + f.body.length - c.unparsed.length) (by omega) (by omega)
    · intro hfull
      have hoff := h.offset
      rcases hover done buffered f todo h.split (by omega) with hfit | hhalf
      · rw [Frame.size] at hfit
        omega
      · omega
    · rw [Client.matchPacket_needs h.ordered hn (by omega) hword hlimit hint hshort]
      congr
      omega

private theorem parseAgain_settles (fuel : Nat) {s : List UInt8} {c : Client} {done buffered todo : List Frame}
    (h : Tracks recvBufSize fs s c done buffered todo) (hs : s <+: encodeAll fs)
    (hn : c.inOffset < 2147483648) (hne : c.unparsed ≠ []) (hfuel : c.unparsed.length < fuel) :
    ∃ c', parseAgain recvBufSize parsesAll fuel c = (none, c') ∧ Settled recvBufSize fs s c' := by
  induction fuel generalizing c buffered todo with
  | zero => omega
  | succ fuel ih =>
      cases todo with
      | nil => exact absurd (List.prefix_nil.mp (h.upcoming hs)) hne
      | cons f todo =>
          by_cases hshort : c.unparsed.length < f.size
          · exact parseAgain_incomplete hR hroom hacc hover h hs hn hshort hne fuel
          · have hfront : f.encode <+: c.unparsed := by
              apply List.prefix_of_prefix_length_le (List.prefix_append _ _) (h.upcoming hs)
              rw [Frame.length_encode]
              omega
            obtain ⟨rest, hbytes⟩ := hfront
            have hmem : f ∈ fs := by
              rw [h.split]
              simp
            obtain ⟨c', hord, hrest, hhanded, hbuf, hoff, hpacket, hround⟩ :=
              parseAgain_frame h.ordered hn hbytes.symm (hacc f hmem).1 fuel
            have h' : Tracks recvBufSize fs s c' done (buffered ++ [f]) todo := by
              refine ⟨hord, by rw [hbuf, h.size], by simp [h.split], ?_, ?_, ?_⟩
              · rw [hhanded, h.handed]
                simp
              · rw [hpacket, h.offset]
                simp
              · rw [h.bytes, hrest, ← hbytes]
                simp
            rw [hround]
            by_cases hend : rest = []
            · rw [if_pos hend]
              have hempty : c'.backToStart.unparsed = [] := by
                simp [Client.backToStart, Client.unparsed]
              refine ⟨_, rfl, by change 0 < recvBufSize; omega, done ++ (buffered ++ [f]), [], todo,
                ⟨⟨le_rfl, Nat.zero_le _, by simp [Client.backToStart]⟩, h'.size, ?_, ?_, rfl, ?_⟩, ?_⟩
              · simp [h'.split]
              · rw [List.append_nil]
                exact h'.handed
              · rw [hempty, List.append_nil, List.append_nil, h'.bytes, hrest, hend,
                  List.append_nil]
              · intro g _
                rw [hempty]
                exact g.size_pos
            · rw [if_neg hend]
              have hlen : rest.length < c.unparsed.length := by
                rw [← hbytes, List.length_append, Frame.length_encode]
                have := f.size_pos
                omega
              exact ih h' (by omega) (by rw [hrest]; exact hend) (by rw [hrest]; omega)

private theorem handleClient_settles
    (hsmall : recvBufSize < 2147483648 ∨ (encodeAll fs).length < 2147483648)
    {segs : List (List UInt8)} {s : List UInt8} {c : Client} (h : Settled recvBufSize fs s c)
    (hs : s ++ segs.flatten <+: encodeAll fs) (hne : ∀ seg ∈ segs, seg ≠ [])
    (hfits : Fits recvBufSize parsesAll c (segs.map .bytes)) :
    ∃ c', handleClient recvBufSize parsesAll c (segs.map .bytes) = (none, c') ∧
      Settled recvBufSize fs (s ++ segs.flatten) c' := by
  induction segs generalizing s c with
  | nil => exact ⟨c, rfl, by simpa using h⟩
  | cons seg segs ih =>
      obtain ⟨done, buffered, todo, htracks, -⟩ := h.tracks
      obtain ⟨hfit, hnext⟩ := hfits
      have hread : Tracks recvBufSize fs (s ++ seg) (c.read seg) done buffered todo :=
        htracks.read hfit
      rw [List.flatten_cons, ← List.append_assoc] at hs ⊢
      have hs' : s ++ seg <+: encodeAll fs := (List.prefix_append _ _).trans hs
      have hbound := hread.inOffset_le
      have hlen := hs'.length_le
      have hunparsed : (c.read seg).unparsed ≠ [] := by
        rw [Client.unparsed_read htracks.ordered]
        simp [hne seg List.mem_cons_self]
      have hfuel : (c.read seg).unparsed.length < (c.read seg).inOffset + 1 := by
        rw [Client.length_unparsed hread.ordered]
        omega
      obtain ⟨c', hparse, hsettled⟩ := parseAgain_settles hR hroom hacc hover
        ((c.read seg).inOffset + 1) hread hs' (by omega) hunparsed hfuel
      have honce : onRead recvBufSize parsesAll c (.bytes seg) = (none, c') := by
        obtain ⟨b, data, rfl⟩ := List.exists_cons_of_ne_nil (hne seg List.mem_cons_self)
        exact hparse
      rw [honce] at hnext
      obtain ⟨c'', hrun, hsettled'⟩ :=
        ih hsettled hs (fun t ht => hne t (List.mem_cons_of_mem _ ht)) hnext
      refine ⟨c'', ?_, hsettled'⟩
      rw [List.map_cons, handleClient, honce]
      exact hrun

end Fitting

/-! ## Streams that are lost -/

section Losing

variable {recvBufSize : Nat}

structure Client.Idle (c : Client) (recvBufSize : Nat) : Prop where
  size : c.clientInBuf.length = recvBufSize
  inOffset : c.inOffset = 0
  packetOffset : c.packetOffset = 0

theorem Client.idle_new (recvBufSize : Nat) : (Client.new recvBufSize).Idle recvBufSize :=
  ⟨by simp [Client.new], rfl, rfl⟩

theorem Client.Idle.read {c : Client} (h : c.Idle recvBufSize) (data : List UInt8)
    (hfit : data.length ≤ recvBufSize) :
    (c.read data).clientInBuf.length = recvBufSize ∧ (c.read data).Ordered ∧ (c.read data).unparsed = data ∧
      (c.read data).inOffset = data.length ∧ (c.read data).packetOffset = 0 := by
  have hord : c.Ordered := ⟨by rw [h.inOffset, h.packetOffset], by rw [h.inOffset]; omega,
    by rw [h.packetOffset]; omega⟩
  have hsize := h.size
  have hroom : c.inOffset + data.length ≤ c.clientInBuf.length := by
    rw [h.inOffset]
    omega
  refine ⟨(length_writeAt hroom).trans hsize, hord.read hroom, ?_, ?_, h.packetOffset⟩
  · rw [Client.unparsed_read hord, Client.unparsed, h.inOffset, h.packetOffset, slice_self,
      List.nil_append]
  · change c.inOffset + data.length = data.length
    rw [h.inOffset, Nat.zero_add]

theorem onRead_bytes {c : Client} {data : List UInt8} (hne : data ≠ []) :
    onRead recvBufSize parsesAll c (.bytes data) =
      parseAgain recvBufSize parsesAll ((c.read data).inOffset + 1) (c.read data) := by
  obtain ⟨b, rest, rfl⟩ := List.exists_cons_of_ne_nil hne
  rfl

theorem handleClient_singly {fs : List Frame} (hacc : Acceptable recvBufSize fs)
    (hroom : ∀ f ∈ fs, f.size ≤ recvBufSize) {c : Client} (h : c.Idle recvBufSize) :
    ∃ c' : Client, c'.Idle recvBufSize ∧ c'.handed = c.handed ++ fs.map Packet.ofFrame ∧
      ∀ results, handleClient recvBufSize parsesAll c (fs.map (.bytes ·.encode) ++ results) =
        handleClient recvBufSize parsesAll c' results ∧
      (Fits recvBufSize parsesAll c' results →
        Fits recvBufSize parsesAll c (fs.map (.bytes ·.encode) ++ results)) := by
  induction fs generalizing c with
  | nil => exact ⟨c, h, by simp, fun _ => ⟨rfl, id⟩⟩
  | cons f fs ih =>
      have hfit := hroom f List.mem_cons_self
      obtain ⟨hlimit, hint⟩ := hacc f List.mem_cons_self
      obtain ⟨hsize, hord, hbytes, hin, hpacket⟩ := h.read f.encode (by simpa using hfit)
      obtain ⟨c₁, -, -, hhanded, hbuf, -, -, hround⟩ := parseAgain_frame hord
        (by rw [hin, Frame.length_encode]; exact hint)
        (hbytes.trans (List.append_nil f.encode).symm) hlimit (c.read f.encode).inOffset
      rw [if_pos rfl, ← onRead_bytes (List.ne_nil_of_length_pos (by simp [f.size_pos]))] at hround
      have hidle : c₁.backToStart.Idle recvBufSize := ⟨by rw [← hsize, ← hbuf]; rfl, rfl, rfl⟩
      obtain ⟨c', hidle', hhanded', hlater⟩ :=
        ih (fun g hg => hacc g (List.mem_cons_of_mem _ hg))
          (fun g hg => hroom g (List.mem_cons_of_mem _ hg)) hidle
      refine ⟨c', hidle', ?_, fun results => ⟨?_, ?_⟩⟩
      · rw [hhanded']
        change c₁.handed ++ _ = _
        rw [hhanded]
        change c.handed ++ _ ++ _ = _
        simp
      · rw [List.map_cons, List.cons_append, handleClient, hround]
        exact (hlater results).1
      · intro hnext
        rw [List.map_cons, List.cons_append, Fits, hround, h.inOffset]
        exact ⟨by simpa [ReadResult.data] using hfit, (hlater results).2 hnext⟩

/-- Every packet is handed over exactly once and in order, and the loop goes on as long as the
stream does, for every way to cut the stream into `Read` results. -/
def Lossless (recvBufSize : Nat) (fs : List Frame) : Prop :=
  ∀ (segs : List (List UInt8)) (rest : List UInt8), segs.flatten ++ rest = encodeAll fs →
    (∀ seg ∈ segs, seg ≠ []) →
    Fits recvBufSize parsesAll (Client.new recvBufSize) (segs.map .bytes) →
    ∃ c, handleClient recvBufSize parsesAll (Client.new recvBufSize) (segs.map .bytes) = (none, c) ∧
      (rest ≠ [] → c.inOffset < recvBufSize) ∧ (rest = [] → c.handed = fs.map Packet.ofFrame)

/-- A stream is lost when, behind packets that were read one by one, one more `Read` makes the
reader leave its loop, fill its buffer or forget a packet. -/
theorem not_lossless {a b : List Frame} (data rest : List UInt8) (hacc : Acceptable recvBufSize a)
    (hroom : ∀ f ∈ a, f.size ≤ recvBufSize) (hdata : data ++ rest = encodeAll b) (hne : data ≠ [])
    (hfit : data.length ≤ recvBufSize)
    (hbad : ∀ c c' : Client, c.Idle recvBufSize → c.handed = a.map Packet.ofFrame →
      onRead recvBufSize parsesAll c (.bytes data) = (none, c') →
      (rest ≠ [] ∧ recvBufSize ≤ c'.inOffset) ∨
        (rest = [] ∧ c'.handed ≠ (a ++ b).map Packet.ofFrame)) :
    ¬Lossless recvBufSize (a ++ b) := by
  intro hlossless
  obtain ⟨c, hidle, hhanded, hlater⟩ := handleClient_singly hacc hroom (Client.idle_new recvBufSize)
  obtain ⟨hrun, hfits⟩ := hlater [.bytes data]
  have hsegs : (a.map Frame.encode ++ [data]).map ReadResult.bytes =
      a.map (.bytes ·.encode) ++ [.bytes data] := by
    simp
  have hlast : Fits recvBufSize parsesAll c [.bytes data] := by
    refine ⟨by rw [hidle.inOffset]; exact hfit, ?_⟩
    split <;> trivial
  obtain ⟨c', hout, hroom', hall⟩ := hlossless (a.map Frame.encode ++ [data]) rest
    (by simpa [encodeAll, List.flatMap] using hdata) (by
      intro seg hseg
      rcases List.mem_append.mp hseg with hmem | hmem
      · obtain ⟨f, -, rfl⟩ := List.mem_map.mp hmem
        exact List.ne_nil_of_length_pos (by simp [f.size_pos])
      · rw [List.mem_singleton.mp hmem]
        exact hne)
    (by rw [hsegs]; exact hfits hlast)
  rw [hsegs, hrun, handleClient] at hout
  rcases honce : onRead recvBufSize parsesAll c (.bytes data) with ⟨_ | exit, c₁⟩
  · rw [honce] at hout
    cases hout
    have hstart : c.handed = a.map Packet.ofFrame := by simpa [Client.new] using hhanded
    rcases hbad c c' hidle hstart honce with ⟨hmore, hfull⟩ | ⟨hend, hlost⟩
    · exact absurd (hroom' hmore) (by omega)
    · exact hlost (hall hend)
  · rw [honce] at hout
    cases hout

theorem not_lossless_of_unacceptable (hR : 16 ≤ recvBufSize) {a t : List Frame} {f : Frame}
    (hacc : Acceptable recvBufSize a) (hroom : ∀ g ∈ a, g.size ≤ recvBufSize)
    (hf : ¬(f.body.length ≤ toUnsigned 32 recvBufSize ∧ f.size < 2147483648)) :
    ¬Lossless recvBufSize (a ++ f :: t) := by
  have hsize : f.encode.length = 8 + f.body.length := by rw [Frame.length_encode, Frame.size]
  have hlen : (f.encode.take 8).length = 8 := by
    rw [List.length_take]
    omega
  apply not_lossless (f.encode.take 8) (f.encode.drop 8 ++ encodeAll t) hacc hroom
  · rw [← List.append_assoc, List.take_append_drop, encodeAll_cons]
  · exact List.ne_nil_of_length_pos (by omega)
  · omega
  · intro c c' hidle _ hread
    exfalso
    obtain ⟨-, hord, hbytes, hin, -⟩ := hidle.read (f.encode.take 8) (by omega)
    rw [onRead_bytes (List.ne_nil_of_length_pos (by omega)), parseAgain] at hread
    have hword : (parseHeader (c.read (f.encode.take 8)).unparsed).1 = f.body.length := by
      rw [hbytes]
      apply Client.parseHeader_of_prefix (t := []) _ (by omega)
      rw [List.append_nil]
      exact List.take_prefix _ _
    have h8 : 8 ≤ (c.read (f.encode.take 8)).unparsed.length := by
      rw [hbytes]
      omega
    by_cases hbig : toUnsigned 32 recvBufSize < f.body.length
    · rw [Client.matchPacket_oversized hord (by omega) h8 (hword ▸ hbig)] at hread
      simp at hread
    · rw [Client.matchPacket_panics hord (by omega) h8 hword (by omega) (by
        rw [Frame.size] at hf
        omega)] at hread
      simp at hread

private theorem onRead_wrapped {c c' : Client} (h : c.Idle recvBufSize) {data : List UInt8}
    (hfit : data.length ≤ recvBufSize) (hlo : 2147483648 ≤ data.length)
    (hhi : data.length < 4294967296)
    (hread : onRead recvBufSize parsesAll c (.bytes data) = (none, c')) :
    c'.inOffset = data.length ∧ c'.handed = c.handed := by
  obtain ⟨-, hord, hbytes, hin, hpacket⟩ := h.read data hfit
  obtain ⟨needs, hneeds, hmatch⟩ : ∃ needs, needs ≠ 0 ∧
      (c.read data).matchPacket recvBufSize = some { token := 0, needs } :=
    Client.matchPacket_wrapped hord (by rw [hbytes]; exact hlo) (by rw [hbytes]; exact hhi)
  rw [onRead_bytes (List.ne_nil_of_length_pos (by omega)), parseAgain, hmatch] at hread
  simp only [if_true, if_neg hneeds] at hread
  split at hread
  · split at hread
    · cases hread
    · cases hread
      refine ⟨?_, rfl⟩
      change (c.read data).inOffset - (c.read data).packetOffset = _
      omega
  · cases hread
    exact ⟨hin, rfl⟩

private theorem exists_huge_suffix {fs : List Frame} (hint : ∀ f ∈ fs, f.size < 2147483648)
    (hlen : 2147483648 ≤ (encodeAll fs).length) :
    ∃ a b, fs = a ++ b ∧ 2147483648 ≤ (encodeAll b).length ∧ (encodeAll b).length < 4294967296 := by
  induction fs with
  | nil => simp at hlen
  | cons f fs ih =>
      by_cases hrest : 2147483648 ≤ (encodeAll fs).length
      · obtain ⟨a, b, rfl, hlo, hhi⟩ := ih (fun g hg => hint g (List.mem_cons_of_mem _ hg)) hrest
        exact ⟨f :: a, b, rfl, hlo, hhi⟩
      · have hf := hint f List.mem_cons_self
        refine ⟨[], f :: fs, rfl, hlen, ?_⟩
        rw [encodeAll_cons, List.length_append, Frame.length_encode]
        omega

private theorem not_lossless_of_huge {fs : List Frame} (hacc : Acceptable recvBufSize fs)
    (hroom : ∀ f ∈ fs, f.size ≤ recvBufSize) (hR : 2147483648 ≤ recvBufSize)
    (hlen : 2147483648 ≤ (encodeAll fs).length) : ¬Lossless recvBufSize fs := by
  obtain ⟨a, b, rfl, hlo, hhi⟩ := exists_huge_suffix (fun f hf => (hacc f hf).2) hlen
  have hmin : ((encodeAll b).take recvBufSize).length = min recvBufSize (encodeAll b).length := by
    rw [List.length_take]
  apply not_lossless ((encodeAll b).take recvBufSize) ((encodeAll b).drop recvBufSize)
    (fun f hf => hacc f (List.mem_append_left _ hf))
    (fun f hf => hroom f (List.mem_append_left _ hf)) (List.take_append_drop _ _)
  · exact List.ne_nil_of_length_pos (by omega)
  · omega
  · intro c c' hidle hhanded hread
    obtain ⟨hin, hkept⟩ := onRead_wrapped hidle (by omega) (by omega) (by omega) hread
    by_cases hmore : (encodeAll b).drop recvBufSize = []
    · refine .inr ⟨hmore, ?_⟩
      rw [hkept, hhanded, List.map_append]
      intro hnil
      have hb : b = [] := by simpa using hnil
      rw [hb] at hlo
      simp at hlo
    · refine .inl ⟨hmore, ?_⟩
      rw [List.drop_eq_nil_iff] at hmore
      omega

theorem parseAgain_frames {b : List Frame} (hacc : Acceptable recvBufSize b) {c : Client}
    {v : List UInt8} (h : c.Ordered) (hn : c.inOffset < 2147483648)
    (hbytes : c.unparsed = encodeAll b ++ v) (hv : v ≠ []) (fuel : Nat) :
    ∃ c' : Client, c'.Ordered ∧ c'.unparsed = v ∧ c'.inOffset = c.inOffset ∧ c'.clientInBuf = c.clientInBuf ∧
      parseAgain recvBufSize parsesAll (fuel + b.length) c =
        parseAgain recvBufSize parsesAll fuel c' := by
  induction b generalizing c with
  | nil => exact ⟨c, h, by simpa using hbytes, rfl, rfl, rfl⟩
  | cons f b ih =>
      rw [encodeAll_cons, List.append_assoc] at hbytes
      obtain ⟨c₁, hord, hrest, -, hbuf, hin, -, hround⟩ :=
        parseAgain_frame h hn hbytes (hacc f List.mem_cons_self).1 (fuel + b.length)
      rw [if_neg (by simp [hv])] at hround
      obtain ⟨c', hord', hv', hin', hbuf', hloop⟩ :=
        ih (fun g hg => hacc g (List.mem_cons_of_mem _ hg)) hord (by omega) hrest
      exact ⟨c', hord', hv', by omega, hbuf'.trans hbuf,
        by rw [List.length_cons, ← Nat.add_assoc, hround, hloop]⟩

private theorem not_lossless_of_overflow {done buffered todo : List Frame} {f : Frame}
    (hacc : Acceptable recvBufSize (done ++ (buffered ++ f :: todo)))
    (hroom : ∀ g ∈ done ++ (buffered ++ f :: todo), g.size ≤ recvBufSize)
    (hsmall : recvBufSize < 2147483648 ∨
      (encodeAll (done ++ (buffered ++ f :: todo))).length < 2147483648)
    (hhead : (encodeAll buffered).length + 8 ≤ recvBufSize)
    (hfull : recvBufSize < (encodeAll buffered).length + f.size)
    (hhalf : recvBufSize / 2 < f.body.length) :
    ¬Lossless recvBufSize (done ++ (buffered ++ f :: todo)) := by
  have hsize : f.encode.length = 8 + f.body.length := by rw [Frame.length_encode, Frame.size]
  have hcut : (f.encode.take 8).length = 8 := by
    rw [List.length_take]
    omega
  have hlen : (encodeAll buffered ++ f.encode.take 8).length = (encodeAll buffered).length + 8 := by
    rw [List.length_append, hcut]
  have htotal : (encodeAll buffered).length + 8 < 2147483648 := by
    rcases hsmall with hsmall | hsmall
    · omega
    · simp only [encodeAll_append, encodeAll_cons, List.length_append] at hsmall
      omega
  obtain ⟨hlimit, hint⟩ := hacc f (by simp)
  apply not_lossless (encodeAll buffered ++ f.encode.take 8) (f.encode.drop 8 ++ encodeAll todo)
    (fun g hg => hacc g (List.mem_append_left _ hg))
    (fun g hg => hroom g (List.mem_append_left _ hg))
  · rw [encodeAll_append, encodeAll_cons, List.append_assoc, ← List.append_assoc (f.encode.take 8),
      List.take_append_drop]
  · exact List.ne_nil_of_length_pos (by omega)
  · omega
  · intro c c' hidle _ hread
    exfalso
    obtain ⟨-, hord, hbytes, hin, -⟩ :=
      hidle.read (encodeAll buffered ++ f.encode.take 8) (by omega)
    have hcount := length_le_encodeAll buffered
    have hfuel : (c.read (encodeAll buffered ++ f.encode.take 8)).inOffset + 1 =
        (encodeAll buffered).length + 8 - buffered.length + 1 + buffered.length := by
      omega
    obtain ⟨c₁, hord₁, hv, hin₁, -, hloop⟩ := parseAgain_frames
      (fun g hg => hacc g (by simp [hg])) hord (by omega) hbytes
      (List.ne_nil_of_length_pos (by omega)) ((encodeAll buffered).length + 8 - buffered.length + 1)
    rw [onRead_bytes (List.ne_nil_of_length_pos (by omega)), hfuel, hloop, parseAgain] at hread
    have hword : (parseHeader c₁.unparsed).1 = f.body.length := by
      rw [hv]
      apply Client.parseHeader_of_prefix (t := []) _ (by omega)
      rw [List.append_nil]
      exact List.take_prefix _ _
    have h8 : c₁.unparsed.length = 8 := by rw [hv, hcut]
    rw [Frame.size] at hint hfull
    rw [Client.matchPacket_needs hord₁ (by omega) (by omega) hword hlimit hint (by omega)] at hread
    simp only [if_true] at hread
    rw [if_neg (by omega), if_pos (by omega), if_pos (by omega)] at hread
    simp at hread

end Losing

private theorem settled_new {recvBufSize : Nat} (hR : 16 ≤ recvBufSize) (fs : List Frame) :
    Settled recvBufSize fs [] (Client.new recvBufSize) := by
  refine ⟨by change 0 < recvBufSize; omega, [], [], fs, ⟨?_, by simp [Client.new], rfl, rfl, rfl, ?_⟩, ?_⟩
  · exact (Client.sound_new recvBufSize).ordered
  · simp [Client.new, Client.unparsed]
  · intro f _
    simp [Client.new, Client.unparsed, f.size_pos]

private theorem size_le_encodeAll {f : Frame} {fs : List Frame} (h : f ∈ fs) :
    f.size ≤ (encodeAll fs).length := by
  obtain ⟨a, t, rfl⟩ := List.append_of_mem h
  rw [encodeAll_append, encodeAll_cons, List.length_append, List.length_append,
    Frame.length_encode]
  omega

theorem lossless_of_settles {recvBufSize : Nat} (hR : 16 ≤ recvBufSize) {fs : List Frame}
    (hroom : ∀ f ∈ fs, f.size ≤ recvBufSize) (hcheck : ∀ f ∈ fs, f.body.length ≤ toUnsigned 32 recvBufSize)
    (hsmall : recvBufSize < 2147483648 ∨ (encodeAll fs).length < 2147483648)
    (hover : NeverOverflows recvBufSize fs) : Lossless recvBufSize fs := by
  intro segs rest hbytes hne hfits
  have hacc : Acceptable recvBufSize fs := by
    intro f hf
    have hfit := hroom f hf
    have hpart := size_le_encodeAll hf
    exact ⟨hcheck f hf, by omega⟩
  have hs : [] ++ segs.flatten <+: encodeAll fs := ⟨rest, by simpa using hbytes⟩
  obtain ⟨c, hrun, hsettled⟩ :=
    handleClient_settles hR hroom hacc hover hsmall (settled_new hR fs) hs hne hfits
  refine ⟨c, hrun, fun _ => hsettled.room, ?_⟩
  intro hend
  obtain ⟨done, buffered, todo, htracks, hshort⟩ := hsettled.tracks
  have hall : c.unparsed = encodeAll todo := by
    have hwhole := htracks.bytes
    rw [List.nil_append, ← List.append_nil segs.flatten, ← hend, hbytes, htracks.split,
      encodeAll_append (done ++ buffered) todo] at hwhole
    exact (List.append_cancel_left hwhole).symm
  cases todo with
  | nil => rw [htracks.handed, htracks.split, List.append_nil]
  | cons f todo =>
      have hlt := hshort f rfl
      rw [hall, encodeAll_cons, List.length_append, Frame.length_encode] at hlt
      omega

theorem Lossless.conditions {recvBufSize : Nat} (hR : 16 ≤ recvBufSize) {fs : List Frame}
    (hroom : ∀ f ∈ fs, f.size ≤ recvBufSize) (hlossless : Lossless recvBufSize fs) :
    Acceptable recvBufSize fs ∧
      (recvBufSize < 2147483648 ∨ (encodeAll fs).length < 2147483648) ∧
      NeverOverflows recvBufSize fs := by
  have hacc : Acceptable recvBufSize fs := by
    rcases forall_or_first_not
      (fun f : Frame => f.body.length ≤ toUnsigned 32 recvBufSize ∧ f.size < 2147483648) fs with
      hacc | ⟨a, f, t, rfl, hacc, hf⟩
    · exact hacc
    · exact absurd hlossless (not_lossless_of_unacceptable hR hacc
        (fun g hg => hroom g (List.mem_append_left _ hg)) hf)
  have hsmall : recvBufSize < 2147483648 ∨ (encodeAll fs).length < 2147483648 := by
    by_contra hbig
    rw [not_or, not_lt, not_lt] at hbig
    exact not_lossless_of_huge hacc hroom hbig.1 hbig.2 hlossless
  refine ⟨hacc, hsmall, ?_⟩
  intro done buffered f todo hsplit hhead
  by_contra hlost
  rw [not_or, not_le, not_le] at hlost
  rw [List.append_assoc] at hsplit
  subst hsplit
  exact not_lossless_of_overflow hacc hroom hsmall hhead hlost.1 hlost.2 hlossless

/-- The reader loses nothing of a stream of packets that fit its buffer exactly if they pass the
size check, their offsets fit `int32`, and no packet with a body of more than half of the buffer
can end beyond it when its header has been read behind other packets. -/
theorem handleClient_lossless_iff {recvBufSize : Nat} (hR : 16 ≤ recvBufSize) {fs : List Frame}
    (hroom : ∀ f ∈ fs, f.size ≤ recvBufSize) :
    Lossless recvBufSize fs ↔
      (∀ f ∈ fs, f.body.length ≤ toUnsigned 32 recvBufSize) ∧
        (recvBufSize < 2147483648 ∨ (encodeAll fs).length < 2147483648) ∧
        NeverOverflows recvBufSize fs := by
  constructor
  · intro hlossless
    obtain ⟨hacc, hsmall, hover⟩ := hlossless.conditions hR hroom
    exact ⟨fun f hf => (hacc f hf).1, hsmall, hover⟩
  · rintro ⟨hcheck, hsmall, hover⟩
    exact lossless_of_settles hR hroom hcheck hsmall hover

/-- Packets of at most half of the buffer are never lost. -/
theorem handleClient_lossless_iff_halves :
    Lossless 64 [⟨1, [7], by decide, by decide⟩, ⟨1, List.replicate 32 0, by decide, by decide⟩] := by
  have hbody : ∀ f ∈ [(⟨1, [7], by decide, by decide⟩ : Frame),
      ⟨1, List.replicate 32 0, by decide, by decide⟩], f.body.length ≤ 32 := by
    decide
  apply (handleClient_lossless_iff (by decide) (by decide)).mpr
  refine ⟨?_, .inl (by decide), ?_⟩
  · intro f hf
    rw [toUnsigned_32]
    exact (hbody f hf).trans (by decide)
  · intro done buffered f todo hsplit _
    right
    apply hbody
    rw [hsplit]
    simp

/-- A packet of 17 bytes behind one of 8 bytes, read into a buffer of 17 bytes up to the end of
its header: the 9 bytes it needs do not fit behind the header, and they are more than 17 / 2. -/
theorem handleClient_overflow_loses :
    (∀ f ∈ [(⟨1, [], by decide, by decide⟩ : Frame),
        ⟨1, List.replicate 9 0, by decide, by decide⟩], f.size ≤ 17) ∧
      Fits 17 parsesAll (Client.new 17) [.bytes [0, 0, 0, 1, 0, 0, 0, 0, 0, 0, 0, 1, 0, 0, 0, 9]] ∧
      (handleClient 17 parsesAll (Client.new 17)
        [.bytes [0, 0, 0, 1, 0, 0, 0, 0, 0, 0, 0, 1, 0, 0, 0, 9]]).1 = some .overflow ∧
      ¬Lossless 17 [⟨1, [], by decide, by decide⟩,
        ⟨1, List.replicate 9 0, by decide, by decide⟩] := by
  have hfits : Fits 17 parsesAll (Client.new 17)
      [.bytes [0, 0, 0, 1, 0, 0, 0, 0, 0, 0, 0, 1, 0, 0, 0, 9]] := by
    decide +kernel
  have hexit : (handleClient 17 parsesAll (Client.new 17)
      [.bytes [0, 0, 0, 1, 0, 0, 0, 0, 0, 0, 0, 1, 0, 0, 0, 9]]).1 = some .overflow := by
    decide +kernel
  refine ⟨by decide, hfits, hexit, ?_⟩
  intro hlossless
  obtain ⟨c, hrun, -⟩ := hlossless [[0, 0, 0, 1, 0, 0, 0, 0, 0, 0, 0, 1, 0, 0, 0, 9]]
    (List.replicate 9 0) (by decide) (by decide) hfits
  rw [List.map_singleton] at hrun
  rw [hrun] at hexit
  cases hexit

end PinpointAgent.Server
