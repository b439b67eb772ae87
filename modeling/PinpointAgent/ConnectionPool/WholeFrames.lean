import PinpointAgent.Cache.Room
import PinpointAgent.ConnectionPool.EventLoop

/-!
# Frames that are cut short

`copy_into_send_buffer` copies the header and the span in two steps and looks at the result of
neither. A copy that finds neither room nor memory stores what there is room for, so a frame is
whole only if both copies find one or the other.
-/

namespace PinpointAgent.ConnectionPool

open Framework Cache

namespace TransLayer

def AllOrNothing (t : TransLayer) (span : List UInt8) (ok : Bool) (t' : TransLayer) : Prop :=
  t'.chunks.pendingBytes =
    if ok then t.chunks.pendingBytes ++ (be32 1 ++ be32 span.length ++ span) else t.chunks.pendingBytes

def Refuses (t : TransLayer) (span : List UInt8) : Prop :=
  ¬ (t.chunks.Reusable (headerSize + span.length) ∨ t.chunks.WithinLimit (headerSize + span.length))

/-- Each copy finds room or memory; the second one has the room that the first one leaves. -/
def Placeable (headerMalloc bodyMalloc : Bool) (t : TransLayer) (span : List UInt8) : Prop :=
  (headerSize ≤ t.chunks.room ∨ headerMalloc = true) ∧
    (span.length ≤ Chunks.roomAfter t.chunks.room headerMalloc headerSize ∨ bodyMalloc = true)

instance decidablePlaceable (headerMalloc bodyMalloc : Bool) (t : TransLayer) (span : List UInt8) :
    Decidable (Placeable headerMalloc bodyMalloc t span) :=
  inferInstanceAs (Decidable (_ ∧ _))

instance decidableRefuses (t : TransLayer) (span : List UInt8) : Decidable (t.Refuses span) :=
  inferInstanceAs (Decidable (¬ _))

variable {t : TransLayer} {headerMalloc bodyMalloc : Bool} {span : List UInt8}

private theorem length_header (span : List UInt8) : (header span).length = headerSize := by
  simp [header, headerSize]

private theorem length_stored_le (p : Prop) [Decidable p] (data : List UInt8) (room : Nat) :
    (if p then data else data.take room).length ≤ data.length := by
  split
  · exact Nat.le_refl _
  · exact List.length_take_le' _ _

private theorem copySpan_eq (h : t.chunks.Sound) (hlen : span.length ≤ 2 ^ 30) :
    t.copySpan headerMalloc bodyMalloc span =
      if t.Refuses span then some (false, t)
      else some (true, { t with
        chunks := ((t.chunks.copyDataIntoChunks headerMalloc (header span)).2.copyDataIntoChunks
          bodyMalloc span).2
        state := { t.state with writing := true } }) := by
  have hheader := length_header span
  have hsize : (headerSize + span.length) % 2 ^ 32 = headerSize + span.length :=
    Nat.mod_eq_of_lt (by rw [headerSize]; omega)
  have hcut : span.take (span.length % 2 ^ 32) = span := by
    rw [Nat.mod_eq_of_lt (by omega), List.take_length]
  have hfirst : t.chunks.overrunsNewChunk (header span) = false :=
    Chunks.overrunsNewChunk_of_short h (by rw [hheader, dataChunkSize, headerSize]; omega)
  have hsound : (t.chunks.copyDataIntoChunks headerMalloc (header span)).2.Sound :=
    Chunks.copyDataIntoChunks_sound h fun _ => hfirst
  have hsecond := Chunks.overrunsNewChunk_of_short hsound
    (show dataChunkSize + span.length < 2 ^ 31 by rw [dataChunkSize]; omega)
  have hcheck : t.chunks.checkCapacity (headerSize + span.length) = false ↔ t.Refuses span := by
    rw [Refuses, ← Chunks.checkCapacity_iff h (by rw [headerSize]; omega), Bool.not_eq_true]
  simp only [copySpan, hsize, hcut, hfirst, hsecond, Bool.and_false, Bool.false_eq_true, if_false, hcheck]

private theorem allOrNothing_iff (h : t.chunks.Sound) (hlen : span.length ≤ 2 ^ 30) :
    (∃ ok t', t.copySpan headerMalloc bodyMalloc span = some (ok, t') ∧ t.AllOrNothing span ok t') ↔
      t.Refuses span ∨ t.Placeable headerMalloc bodyMalloc span := by
  rw [copySpan_eq h hlen]
  by_cases hrefused : t.Refuses span
  · rw [if_pos hrefused]
    exact iff_of_true ⟨false, t, rfl, rfl⟩ (.inl hrefused)
  rw [if_neg hrefused]
  have hheader := length_header span
  have hshort : (header span).length ≤ 2 ^ 30 := by rw [hheader, headerSize]; decide
  have hsound : (t.chunks.copyDataIntoChunks headerMalloc (header span)).2.Sound :=
    Chunks.copyDataIntoChunks_sound h fun _ =>
      Chunks.overrunsNewChunk_of_short h (by rw [hheader, dataChunkSize, headerSize]; omega)
  have hfirst := Chunks.copyDataIntoChunks_pendingBytes h headerMalloc hshort
  have hsecond := Chunks.copyDataIntoChunks_pendingBytes hsound bodyMalloc hlen
  have hroom := Chunks.copyDataIntoChunks_room h headerMalloc hshort
  rw [hroom, hfirst, hheader] at hsecond
  constructor
  · -- whatever is left out is missed in the length
    rintro ⟨ok, t', hcopy, hall⟩
    cases hcopy
    have hlength := congrArg List.length (hsecond.symm.trans hall)
    simp only [if_true, List.length_append, length_be32] at hlength
    refine .inr ⟨?_, ?_⟩
    · by_contra hnone
      have hle := length_stored_le (span.length ≤ Chunks.roomAfter t.chunks.room headerMalloc headerSize ∨
        bodyMalloc = true) span (Chunks.roomAfter t.chunks.room headerMalloc headerSize)
      rw [if_neg hnone, List.length_take, hheader] at hlength
      rw [not_or] at hnone
      rw [headerSize] at *
      omega
    · by_contra hnone
      have hle := length_stored_le (headerSize ≤ t.chunks.room ∨ headerMalloc = true) (header span)
        t.chunks.room
      rw [if_neg hnone, List.length_take] at hlength
      rw [hheader] at hle
      rw [not_or] at hnone
      rw [headerSize] at *
      omega
  · rintro (hyes | ⟨hfirst', hsecond'⟩)
    · exact absurd hyes hrefused
    · refine ⟨true, _, rfl, ?_⟩
      rw [AllOrNothing, if_pos rfl, hsecond, if_pos hfirst', if_pos hsecond', List.append_assoc]
      rfl

end TransLayer

/-- In every reachable state and for every outcome of the two allocations: a span is buffered whole
or not at all if and only if it is refused, or the header and the span find room or memory each. -/
theorem span_all_or_nothing_iff {ε σ : Type*} {coHost : String}
    {routes : Int → Option (ThrowingHandler ε σ)} {st : σ} {layer : TransLayer} {calls : List LayerCall}
    {e : EventLayer ε σ} (hnew : TransLayer.new = .ok layer)
    (hrun : exec (EventLayer.call coHost routes) (EventLayer.new layer st) calls = some e)
    (headerMalloc bodyMalloc : Bool) {span : List UInt8} (hlen : span.length ≤ 2 ^ 30) :
    (∃ ok t', e.layer.copySpan headerMalloc bodyMalloc span = some (ok, t') ∧
        e.layer.AllOrNothing span ok t') ↔
      e.layer.Refuses span ∨ e.layer.Placeable headerMalloc bodyMalloc span := by
  have hattentive : e.layer.Attentive :=
    exec_invariant (P := fun e : EventLayer ε σ => e.layer.Attentive)
      (fun _ _ _ h hcall => EventLayer.attentive_call h hcall) (TransLayer.attentive_new hnew) hrun
  exact TransLayer.allOrNothing_iff hattentive.sound hlen

theorem span_all_or_nothing_iff_fresh :
    ∃ ok t', freshLayer.copySpan true true [7] = some (ok, t') ∧ freshLayer.AllOrNothing [7] ok t' := by
  have hrun : exec (EventLayer.call "" fun _ => none) (EventLayer.new freshLayer ()) [] =
      some (EventLayer.new freshLayer () : EventLayer Unit Unit) := rfl
  have hlen : ([7] : List UInt8).length ≤ 2 ^ 30 := by decide
  apply (span_all_or_nothing_iff rfl hrun true true hlen).2
  exact .inr (by decide +kernel)

/-- There is no memory for the header, and some again for the span: the span is sent without one. -/
theorem span_without_header :
    TransLayer.new = .ok freshLayer ∧
      ∃ t', freshLayer.copySpan false true [7] = some (true, t') ∧ t'.chunks.pendingBytes = [7] := by
  refine ⟨rfl, ⟨⟨[⟨1012, 0, 1, [7]⟩], [], TransLayer.chunkHoldSize, TransLayer.chunkMaxSize, 1024, 1024, 0⟩,
    ⟨true, false, false⟩, false⟩, ?_, rfl⟩
  decide +kernel

end PinpointAgent.ConnectionPool
