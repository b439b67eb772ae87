import PinpointAgent.Cache.Accounting

/-!
# The memory limit of the send buffer

Spans enter the buffer as a header of 8 bytes and a body after `checkCapacity` said yes to both
together. The check adds the bytes to the memory held; what is allocated is a block with its own
header, rounded up to a power of two of at least 1024 bytes. The limit is kept in the runs in which
what is allocated fits under it too.
-/

namespace PinpointAgent.Cache

open Framework

/-- A call on the buffer of a `TransLayer`; `header` is what `copy_into_send_buffer` puts before
the span. -/
inductive SpanCall (σ : Type) where
  | enter (headerMalloc bodyMalloc : Bool) (header body : List UInt8)
  | drain (cb : Sink σ UInt8) (turns : Nat)
  | reset

namespace SpanCall

variable {σ : Type}

def step (s : Chunks × σ) : SpanCall σ → Option (Chunks × σ)
  | .enter headerMalloc bodyMalloc header body =>
    if header.length = 8 ∧ body.length ≤ s.1.cMaxSize ∧
        s.1.checkCapacity ((8 + body.length) % 2 ^ 32) = true then
      exec ChunkCall.step s [.copy headerMalloc header, .copy bodyMalloc body]
    else none
  | .drain cb turns => ChunkCall.step s (.drain cb turns)
  | .reset => ChunkCall.step s .reset

def memory (room : Nat) (headerMalloc bodyMalloc : Bool) (length : Nat) : Nat :=
  Chunks.memoryFor room headerMalloc 8 +
    Chunks.memoryFor (Chunks.roomAfter room headerMalloc 8) bodyMalloc length

def Covered (s : Chunks × σ) : SpanCall σ → Prop
  | .enter headerMalloc bodyMalloc _ body =>
    s.1.ckAllocSize + memory s.1.room headerMalloc bodyMalloc body.length ≤ s.1.cMaxSize
  | .drain .. | .reset => True

instance decidableCovered (s : Chunks × σ) : (call : SpanCall σ) → Decidable (call.Covered s)
  | .enter .. => inferInstanceAs (Decidable (_ ≤ _))
  | .drain .. | .reset => isTrue trivial

structure Within (maxSize : Nat) (c : Chunks) : Prop where
  accounted : c.Accounted
  size : c.cMaxSize = maxSize
  alloc_le : c.ckAllocSize ≤ maxSize

variable {s t : Chunks × σ} {maxSize residentSize : Nat}

private theorem within_settled {c c' : Chunks} (h : Within maxSize c) (hsettled : c.Settled c') : Within maxSize c' := by
  refine ⟨hsettled.accounted, hsettled.maxSize.trans h.size, ?_⟩
  calc c'.ckAllocSize = c'.held := hsettled.accounted.alloc
    _ ≤ c.held := hsettled.held_le
    _ = c.ckAllocSize := h.accounted.alloc.symm
    _ ≤ maxSize := h.alloc_le

private theorem within_copy (hmax : maxSize < 2 ^ 32) (h : Within maxSize s.1) {malloc : Bool}
    {data : List UInt8} (hstep : ChunkCall.step s (.copy malloc data) = some t)
    (hroom : s.1.ckAllocSize + Chunks.memoryFor s.1.room malloc data.length ≤ maxSize) :
    Within maxSize t.1 ∧ s.1.Grown malloc data.length t.1 := by
  simp only [ChunkCall.step] at hstep
  split at hstep
  · next hfit =>
    cases hstep
    have halloc := h.accounted.alloc
    have hgrown := Chunks.copyDataIntoChunks_grown h.accounted hfit.2 (by omega)
    refine ⟨⟨hgrown.accounted, hgrown.maxSize.trans h.size, ?_⟩, hgrown⟩
    rw [hgrown.accounted.alloc, hgrown.held, ← halloc]
    exact hroom
  · cases hstep

private theorem within_step (hmax : maxSize < 2 ^ 32) (h : Within maxSize s.1) {call : SpanCall σ}
    (hcovered : call.Covered s) (hstep : call.step s = some t) : Within maxSize t.1 := by
  cases call with
  | enter headerMalloc bodyMalloc header body =>
    simp only [step] at hstep
    split at hstep
    · next hpass =>
      obtain ⟨hheader, -, -⟩ := hpass
      obtain ⟨u, hu, hrest⟩ := Option.bind_eq_some_iff.1 hstep
      obtain ⟨v, hv, hdone⟩ := Option.bind_eq_some_iff.1 hrest
      cases hdone
      simp only [Covered, memory, h.size, ← hheader] at hcovered
      obtain ⟨hwithin, hgrown⟩ := within_copy hmax h hu (by omega)
      refine (within_copy hmax hwithin hv ?_).1
      rw [hwithin.accounted.alloc, hgrown.held, hgrown.room, ← h.accounted.alloc]
      omega
    · cases hstep
  | drain cb turns =>
    simp only [step, ChunkCall.step] at hstep
    split at hstep
    · cases hstep
      exact h
    · obtain ⟨⟨ret, st', c'⟩, hrun, rfl⟩ := Option.map_eq_some_iff.1 hstep
      exact within_settled h (h.accounted.drainLoop hrun)
  | reset =>
    cases hstep
    exact within_settled h h.accounted.resetChunks.1

end SpanCall

/-- In every run in which the memory each span asks for fits under the limit, the limit is kept in
every state reached. -/
theorem alloc_size_within_limit {σ : Type} {maxSize residentSize : Nat} {c₀ : Chunks}
    (hnew : Chunks.new maxSize residentSize = .ok c₀) (hmax : maxSize < 2 ^ 32) {st : σ}
    {calls : List (SpanCall σ)} {t : Chunks × σ}
    (hcovered : Along SpanCall.step (fun s call => call.Covered s) (c₀, st) calls)
    (hrun : exec SpanCall.step (c₀, st) calls = some t) : t.1.ckAllocSize ≤ maxSize := by
  obtain ⟨haccounted, -, hzero, hsize, -, -⟩ := Chunks.new_accounted hnew
  have hstart : SpanCall.Within maxSize c₀ := ⟨haccounted, hsize, hzero ▸ Nat.zero_le _⟩
  exact (Along.invariant (P := fun s : Chunks × σ => SpanCall.Within maxSize s.1)
    (fun _ _ _ h hc hs => SpanCall.within_step hmax h hc hs) hstart hcovered hrun).alloc_le

def oneByteSpan : SpanCall Unit := .enter true true [0, 0, 0, 1, 0, 0, 0, 1] [7]

def oneByteSpanBuffer (maxSize : Nat) : Chunks :=
  ⟨[⟨1012, 0, 9, [0, 0, 0, 1, 0, 0, 0, 1, 7]⟩], [], 0, maxSize, 1024, 1024, 0⟩

theorem alloc_size_within_limit_one_byte :
    exec SpanCall.step (⟨[], [], 0, 2048, 1024, 0, 0⟩, ()) [oneByteSpan] =
        some (oneByteSpanBuffer 2048, ()) ∧
      (oneByteSpanBuffer 2048).ckAllocSize ≤ 2048 := by
  have hrun : exec SpanCall.step (⟨[], [], 0, 2048, 1024, 0, 0⟩, ()) [oneByteSpan] =
      some (oneByteSpanBuffer 2048, ()) := by decide +kernel
  refine ⟨hrun, ?_⟩
  exact alloc_size_within_limit (show Chunks.new 2048 0 = .ok _ from rfl) (by decide) (by decide +kernel) hrun

/-- With a limit of 100 bytes the check lets the nine bytes pass, and 1024 are allocated. -/
theorem rounded_block_exceeds_limit :
    Chunks.new 100 0 = .ok ⟨[], [], 0, 100, 1024, 0, 0⟩ ∧
      exec SpanCall.step (⟨[], [], 0, 100, 1024, 0, 0⟩, ()) [oneByteSpan] =
        some (oneByteSpanBuffer 100, ()) ∧
      100 < (oneByteSpanBuffer 100).ckAllocSize :=
  ⟨rfl, by decide +kernel, by decide⟩

end PinpointAgent.Cache
