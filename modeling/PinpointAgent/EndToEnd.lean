import PinpointAgent.ConnectionPool.TransLayer
import PinpointAgent.Server.HandleClient

/-!
# Spans from `copy_into_send_buffer` to `parsePacket`

A run of one `TransLayer` is a list of steps: spans are copied into the send buffer, the socket is
written to with arbitrary results of `send`, the connection is reset and opened again. Beside the
modelled state a `Link` keeps what the statement is about: the spans accepted so far, how many of
them had been accepted at the last reset, and for each connection what `send` has taken on it.

What was taken on a connection, followed by what is still queued, is the encoding of the spans
accepted since the last reset. Whatever part of it arrives, the reader at the other end hands over
the first of these spans.
-/

namespace PinpointAgent

open Framework ConnectionPool Server

/-- A span of a size that the send buffer is used with. -/
structure Span where
  bytes : List UInt8
  length_le : bytes.length ≤ 2 ^ 30
deriving DecidableEq

def Span.frame (span : Span) : Frame where
  type := TransLayer.reqUpdateSpan
  body := span.bytes
  type_lt := by decide
  body_lt := by
    have hlen := span.length_le
    omega

/-- A connection: `start` spans had been accepted at the last reset before it was opened, and
`stop` spans when it was closed (or so far). -/
structure Conn where
  start : Nat
  stop : Nat
  sent : List UInt8
deriving DecidableEq

structure Link where
  layer : TransLayer
  accepted : List Span
  epochStart : Nat
  closed : List Conn
  current : Option Conn

inductive LinkStep where
  | copy (span : Span)
  /-- a write event; the second argument is what `connect_remote` finds after a failure -/
  | write (script : List SendResult) (reconnect : ConnectResult)
  | reset
  | connect (result : ConnectResult)

namespace Link

def new (layer : TransLayer) : Link := ⟨layer, [], 0, [], none⟩

def connections (l : Link) : List Conn :=
  l.closed ++ (l.current.map fun c => { c with stop := l.accepted.length }).toList

def copy (l : Link) (span : Span) : Link :=
  match l.layer.copyIntoSendBuffer span.bytes with
  | (true, layer) => { l with layer, accepted := l.accepted ++ [span] }
  | (false, layer) => { l with layer }

def reset (l : Link) : Link :=
  { l with
    layer := l.layer.resetRemote
    epochStart := l.accepted.length
    closed := l.connections
    current := none }

-- The event loop connects only while it has no descriptor.
def connect (l : Link) (result : ConnectResult) : Link :=
  if l.layer.connected then l
  else
    match result with
    | .opened =>
        { l with
          layer := l.layer.connectRemote .opened
          closed := l.connections
          current := some ⟨l.epochStart, l.accepted.length, []⟩ }
    | result => { l with layer := l.layer.connectRemote result }

def wrote (l : Link) (layer : TransLayer) (sent : List UInt8) : Link :=
  { l with layer, current := l.current.map fun c => { c with sent := c.sent ++ sent } }

/-- The write event of `PoolEventOnce`, with its way out over `ERR_NETWORK`. -/
def write (l : Link) (script : List SendResult) (reconnect : ConnectResult) : Option Link :=
  if l.layer.connected && l.layer.state.writing then
    match l.layer.sendMsgToCollector script with
    | none => none
    | some (ret, sent, layer) =>
        if ret = -1 then some (((l.wrote layer sent).reset).connect reconnect)
        else some (l.wrote layer sent)
  else some l

def step (l : Link) : LinkStep → Option Link
  | .copy span => some (l.copy span)
  | .write script reconnect => l.write script reconnect
  | .reset => some l.reset
  | .connect result => some (l.connect result)

def run (l : Link) (steps : List LinkStep) : Option Link := steps.foldlM step l

/-- The encoding of the spans accepted since the last reset. -/
def epoch (l : Link) : List UInt8 := encodeAll ((l.accepted.drop l.epochStart).map Span.frame)

/-- What holds of a connection that has been closed after `n` spans at the latest. -/
structure ConnSound (accepted : List Span) (n : Nat) (c : Conn) : Prop where
  start_le : c.start ≤ c.stop
  stop_le : c.stop ≤ n
  sent : c.sent <+: encodeAll (((accepted.take c.stop).drop c.start).map Span.frame)

/-- Enough to survive a reset: a failed write may have sent more than it reported. -/
structure Weak (l : Link) : Prop where
  chunks : l.layer.chunks.Sound
  epoch_le : l.epochStart ≤ l.accepted.length
  closed : ∀ c ∈ l.closed, ConnSound l.accepted l.epochStart c
  ordered : l.closed.Pairwise fun a b => a.stop ≤ b.start
  current : ∀ c ∈ l.current, c.start = l.epochStart ∧ c.sent <+: l.epoch

/-- The invariant of a run: what the current connection has taken and what is queued are the
spans of this epoch. -/
structure Sound (l : Link) : Prop extends Weak l where
  connected : l.layer.connected = l.current.isSome
  queued : (l.current.elim [] Conn.sent) ++ l.layer.chunks.pendingBytes = l.epoch

theorem Weak.connections_sound {l : Link} (h : l.Weak) :
    (∀ c ∈ l.connections, ConnSound l.accepted l.accepted.length c) ∧
      l.connections.Pairwise fun a b => a.stop ≤ b.start := by
  have hclosed : ∀ c ∈ l.closed, ConnSound l.accepted l.accepted.length c := by
    intro c hc
    obtain ⟨hle, hstop, hsent⟩ := h.closed c hc
    exact ⟨hle, hstop.trans h.epoch_le, hsent⟩
  cases hcur : l.current with
  | none =>
      rw [connections, hcur]
      simpa using ⟨hclosed, h.ordered⟩
  | some c =>
      obtain ⟨hstart, hsent⟩ := h.current c hcur
      have hlast : ConnSound l.accepted l.accepted.length { c with stop := l.accepted.length } := by
        refine ⟨hstart ▸ h.epoch_le, le_rfl, ?_⟩
        rw [List.take_length, hstart]
        exact hsent
      rw [connections, hcur]
      constructor
      · intro d hd
        rcases List.mem_append.mp hd with hd | hd
        · exact hclosed d hd
        · rw [show d = _ from List.mem_singleton.mp hd]
          exact hlast
      · apply List.pairwise_append.mpr
        refine ⟨h.ordered, List.pairwise_singleton _ _, ?_⟩
        intro a ha b hb
        rw [show b = _ from List.mem_singleton.mp hb]
        change a.stop ≤ c.start
        rw [hstart]
        exact (h.closed a ha).stop_le

private theorem Weak.reset {l : Link} (h : l.Weak) : l.reset.Sound := by
  obtain ⟨hchunks, hempty⟩ := Cache.Chunks.resetChunks_spec h.chunks
  obtain ⟨hconns, hordered⟩ := h.connections_sound
  refine ⟨⟨hchunks, le_rfl, hconns, hordered, by simp [Link.reset]⟩, rfl, ?_⟩
  change [] ++ l.layer.resetRemote.chunks.pendingBytes = encodeAll ((l.accepted.drop l.accepted.length).map _)
  rw [TransLayer.resetRemote, hempty, List.drop_length]
  rfl

private theorem encode_frame (span : Span) :
    span.frame.encode = TransLayer.header span.bytes ++ span.bytes := rfl

theorem Sound.copy {l : Link} (h : l.Sound) (span : Span) : (l.copy span).Sound := by
  rw [Link.copy]
  rcases TransLayer.copyIntoSendBuffer_spec h.chunks span.length_le with
    hfull | ⟨layer, hcopy, hchunks, hconn, hpending⟩
  · rw [hfull]
    exact h
  · rw [hcopy]
    have hepoch : encodeAll (((l.accepted ++ [span]).drop l.epochStart).map Span.frame) =
        l.epoch ++ span.frame.encode := by
      rw [List.drop_append_of_le_length h.epoch_le, List.map_append, encodeAll_append, epoch]
      simp
    refine ⟨⟨hchunks, ?_, ?_, h.ordered, ?_⟩, hconn.trans h.connected, ?_⟩
    · have hle := h.epoch_le
      change l.epochStart ≤ (l.accepted ++ [span]).length
      rw [List.length_append]
      omega
    · intro c hc
      obtain ⟨hle, hstop, hsent⟩ := h.closed c hc
      refine ⟨hle, hstop, ?_⟩
      rw [List.take_append_of_le_length (hstop.trans h.epoch_le)]
      exact hsent
    · intro c hc
      obtain ⟨hstart, hsent⟩ := h.current c hc
      refine ⟨hstart, ?_⟩
      rw [epoch, hepoch]
      exact hsent.trans (List.prefix_append _ _)
    · rw [epoch, hepoch, hpending, ← List.append_assoc, h.queued, encode_frame]

private theorem Sound.connect {l : Link} (h : l.Sound) (result : ConnectResult) :
    (l.connect result).Sound := by
  unfold Link.connect
  by_cases hconn : l.layer.connected = true
  · rw [if_pos hconn]
    exact h
  · rw [if_neg hconn]
    have hnone : l.current = none := by
      have hiff := h.connected
      cases hcur : l.current with
      | none => rfl
      | some c => simp [hcur, hconn] at hiff
    have hqueued := h.queued
    cases result with
    | skipped => exact h
    | refused =>
        refine ⟨⟨h.chunks, h.epoch_le, h.closed, h.ordered, h.current⟩, ?_, hqueued⟩
        simp [hnone, TransLayer.connectRemote]
    | opened =>
        have hconns : l.connections = l.closed := by simp [connections, hnone]
        refine ⟨⟨h.chunks, h.epoch_le, ?_, ?_, ?_⟩, rfl, ?_⟩
        · rw [hconns]
          exact h.closed
        · rw [hconns]
          exact h.ordered
        · intro c hc
          cases hc
          exact ⟨rfl, List.nil_prefix⟩
        · rw [hnone] at hqueued
          exact hqueued

private theorem Sound.wrote {l : Link} (h : l.Sound) {layer : TransLayer} (hchunks : layer.chunks.Sound) {sent : List UInt8}
    (hsent : sent <+: l.layer.chunks.pendingBytes) : (l.wrote layer sent).Weak := by
  refine ⟨hchunks, h.epoch_le, h.closed, h.ordered, ?_⟩
  intro c hc
  obtain ⟨c₀, hc₀, rfl⟩ := Option.mem_map.mp hc
  refine ⟨(h.current c₀ hc₀).1, ?_⟩
  have hqueued := h.queued
  rw [show l.current = some c₀ from hc₀] at hqueued
  change c₀.sent ++ sent <+: l.epoch
  rw [← hqueued]
  exact (List.prefix_append_right_inj _).mpr hsent

private theorem Sound.write {l : Link} (h : l.Sound) (script : List SendResult)
    (reconnect : ConnectResult) : ∃ l', l.write script reconnect = some l' ∧ l'.Sound := by
  rw [Link.write]
  by_cases hready : (l.layer.connected && l.layer.state.writing) = true
  · obtain ⟨hconn, -⟩ := Bool.and_eq_true_iff.mp hready
    obtain ⟨ret, sent, layer, hsend, hchunks, hlayer, hpre, hleft⟩ :=
      TransLayer.sendMsgToCollector_spec h.chunks script
    have hweak := h.wrote hchunks hpre
    simp only [hready, if_true, hsend]
    by_cases hret : ret = -1
    · rw [if_pos hret]
      exact ⟨_, rfl, hweak.reset.connect reconnect⟩
    · rw [if_neg hret]
      refine ⟨_, rfl, hweak, ?_, ?_⟩
      · change layer.connected = (l.current.map _).isSome
        rw [hlayer, h.connected, Option.isSome_map]
      · obtain ⟨c, hcur⟩ := Option.isSome_iff_exists.mp (h.connected.symm.trans hconn)
        have hqueued := h.queued
        rw [hcur] at hqueued
        change (l.current.map _).elim [] Conn.sent ++ layer.chunks.pendingBytes = l.epoch
        rw [hcur, ← hqueued, ← hleft hret]
        simp
  · rw [if_neg hready]
    exact ⟨l, rfl, h⟩

private theorem Sound.step {l : Link} (h : l.Sound) (s : LinkStep) : ∃ l', l.step s = some l' ∧ l'.Sound := by
  cases s with
  | copy span => exact ⟨_, rfl, h.copy span⟩
  | write script reconnect => exact h.write script reconnect
  | reset => exact ⟨_, rfl, h.toWeak.reset⟩
  | connect result => exact ⟨_, rfl, h.connect result⟩

theorem Sound.run {l : Link} (h : l.Sound) (steps : List LinkStep) :
    ∃ l', l.run steps = some l' ∧ l'.Sound := by
  induction steps generalizing l with
  | nil => exact ⟨l, rfl, h⟩
  | cons s steps ih =>
      obtain ⟨l₁, hstep, h₁⟩ := h.step s
      obtain ⟨l', hrun, h'⟩ := ih h₁
      refine ⟨l', ?_, h'⟩
      rw [Link.run, List.foldlM_cons, hstep]
      exact hrun

theorem sound_new {layer : TransLayer} (h : TransLayer.new = .ok layer) : (new layer).Sound := by
  obtain ⟨chunks, hchunks, rfl⟩ : ∃ chunks,
      Cache.Chunks.new TransLayer.chunkMaxSize TransLayer.chunkHoldSize = .ok chunks ∧
        layer = ⟨chunks, ⟨false, false, false⟩, false⟩ := by
    unfold TransLayer.new at h
    cases hnew : Cache.Chunks.new TransLayer.chunkMaxSize TransLayer.chunkHoldSize with
    | error msg =>
        rw [hnew] at h
        cases h
    | ok chunks =>
        rw [hnew] at h
        cases h
        exact ⟨chunks, rfl, rfl⟩
  obtain ⟨hsound, hempty⟩ := Cache.Chunks.new_sound hchunks
  refine ⟨⟨hsound, le_rfl, by simp [new], by simp [new], by simp [new]⟩, rfl, ?_⟩
  change [] ++ chunks.pendingBytes = _
  rw [hempty]
  rfl

end Link

theorem handed_of_spans {spans : List Span} {recvBufSize : Nat} {parsePacketFails : List Packet → Bool}
    {results : List ReadResult}
    (hbytes : bytesOf results <+: encodeAll (spans.map Span.frame))
    (hfits : Fits recvBufSize parsePacketFails (Client.new recvBufSize) results) :
    ∃ k ≤ spans.length,
      (handleClient recvBufSize parsePacketFails (Client.new recvBufSize) results).2.handed =
        (spans.take k).map (Packet.ofFrame ·.frame) := by
  obtain ⟨t, ht, hsound⟩ := handleClient_sound (Client.sound_new recvBufSize) hfits
  obtain ⟨fs, hhanded, hstream⟩ := hsound.handed
  have hfront : encodeAll fs <+: t := ⟨_, by rw [← hstream, List.nil_append]⟩
  have hpre := prefix_of_encodeAll (hfront.trans (ht.trans hbytes))
  have hfs := List.prefix_iff_eq_take.mp hpre
  refine ⟨fs.length, by simpa using hpre.length_le, ?_⟩
  rw [hhanded]
  conv_lhs => rw [hfs]
  rw [← List.map_take, List.map_map]
  rfl

/-- Every run of a `TransLayer` comes to its end, and on every connection, whatever part of what
was sent arrives and however it is cut, `handleClient` hands to `parsePacket` as packets of type 1
the first `k` of the spans accepted since the reset before the connection. The spans of different
connections are different ones, and every connection starts with a frame. -/
theorem spans_end_to_end (steps : List LinkStep) :
    ∃ layer l, TransLayer.new = .ok layer ∧ (Link.new layer).run steps = some l ∧
      (∀ c ∈ l.connections, c.start ≤ c.stop ∧ c.stop ≤ l.accepted.length ∧
        c.sent <+: encodeAll (((l.accepted.take c.stop).drop c.start).map Span.frame) ∧
        ∀ recvBufSize parsePacketFails results, bytesOf results <+: c.sent →
          Fits recvBufSize parsePacketFails (Client.new recvBufSize) results →
          ∃ k, c.start + k ≤ c.stop ∧
            ((handleClient recvBufSize parsePacketFails (Client.new recvBufSize)
                results).2.handed.filter (·.packetType = 1)).map Packet.body =
              ((l.accepted.drop c.start).take k).map Span.bytes) ∧
      l.connections.Pairwise fun a b => a.stop ≤ b.start := by
  have hnew : ∃ layer, TransLayer.new = .ok layer := ⟨_, rfl⟩
  obtain ⟨layer, hlayer⟩ := hnew
  obtain ⟨l, hrun, hsound⟩ := (Link.sound_new hlayer).run steps
  obtain ⟨hconns, hordered⟩ := hsound.toWeak.connections_sound
  refine ⟨layer, l, hlayer, hrun, ?_, hordered⟩
  intro c hc
  obtain ⟨hstart, hstop, hsent⟩ := hconns c hc
  refine ⟨hstart, hstop, hsent, ?_⟩
  intro recvBufSize parsePacketFails results hbytes hfits
  obtain ⟨k, hk, hhanded⟩ := handed_of_spans (hbytes.trans hsent) hfits
  rw [List.length_drop, List.length_take, Nat.min_eq_left hstop] at hk
  have hfirst : ((l.accepted.take c.stop).drop c.start).take k = (l.accepted.drop c.start).take k := by
    rw [List.drop_take, List.take_take, Nat.min_eq_left hk]
  have htype : ∀ p ∈ ((l.accepted.drop c.start).take k).map (Packet.ofFrame ·.frame),
      decide (p.packetType = 1) = true := by
    intro p hp
    obtain ⟨span, -, rfl⟩ := List.mem_map.mp hp
    rfl
  refine ⟨k, by omega, ?_⟩
  rw [hhanded, hfirst, List.filter_eq_self.mpr htype, List.map_map]
  rfl

/-- Two spans are accepted before the connection is open. The first of them and a part of the
second one's header are sent before the connection is reset; all but three bytes arrive. -/
theorem spans_end_to_end_reset :
    ∃ layer l, TransLayer.new = .ok layer ∧
      (Link.new layer).run [.copy ⟨[7], by simp⟩, .copy ⟨[8, 9], by simp⟩, .connect .opened,
        .write [.accepted 12, .wouldBlock] .skipped, .reset] = some l ∧
      l.connections.map Conn.sent = [[0, 0, 0, 1, 0, 0, 0, 1, 7, 0, 0, 0, 1]] ∧
      ∀ c ∈ l.connections, ∃ k, c.start + k ≤ c.stop ∧
        ((handleClient 64 (fun _ => false) (Client.new 64)
            [.bytes [0, 0, 0, 1, 0], .bytes [0, 0, 1, 7, 0]]).2.handed.filter
              (·.packetType = 1)).map Packet.body =
          ((l.accepted.drop c.start).take k).map Span.bytes := by
  obtain ⟨layer, l, hlayer, hrun, hconns, -⟩ := spans_end_to_end [.copy ⟨[7], by simp⟩,
    .copy ⟨[8, 9], by simp⟩, .connect .opened, .write [.accepted 12, .wouldBlock] .skipped, .reset]
  have hsent : l.connections.map Conn.sent = [[0, 0, 0, 1, 0, 0, 0, 1, 7, 0, 0, 0, 1]] := by
    cases hlayer
    have heval := congrArg (Option.map fun l : Link => l.connections.map Conn.sent) hrun
    exact Option.some.inj (heval.symm.trans (by decide +kernel))
  refine ⟨layer, l, hlayer, hrun, hsent, ?_⟩
  intro c hc
  have hc' : c.sent ∈ l.connections.map Conn.sent := List.mem_map_of_mem hc
  rw [hsent, List.mem_singleton] at hc'
  apply (hconns c hc).2.2.2 64 (fun _ => false)
  · rw [hc']
    decide
  · decide +kernel

end PinpointAgent
