import PinpointAgent.Cache.ByteFifo
import PinpointAgent.Framework.Interleaving

/-!
# Room in the send buffer

A copy fills the room behind the last ready block and in the free blocks, and only what is left
over goes to a new block. `checkCapacity` is meant to let data pass that fits into this room; its
query `useExistingChunk` gives up when the last ready block alone is too small, and otherwise
subtracts the wrong way round.
-/

namespace PinpointAgent.Cache

open Framework

def DataChunk.room (ck : DataChunk) : Nat := ck.blockSize - ck.rOfs

namespace Chunks

def lastRoom (c : Chunks) : Nat := (c.readyCks.getLast?.map DataChunk.room).getD 0

def freeRoom (c : Chunks) : Nat := (c.freeCks.map DataChunk.blockSize).sum

def room (c : Chunks) : Nat := c.lastRoom + c.freeRoom

def blockSizes (c : Chunks) : List Nat := (c.readyCks ++ c.freeCks).map DataChunk.blockSize

def written (c : Chunks) : Nat := (c.readyCks.map DataChunk.rOfs).sum

end Chunks

private theorem DataChunk.fill_room {ck : DataChunk} (h : ck.Sound) (data : List UInt8) :
    (ck.fill data).1 = data.length - ck.room ∧ (ck.fill data).2.blockSize = ck.blockSize ∧
      (ck.fill data).2.room = ck.room - data.length ∧
      (ck.fill data).2.rOfs + (ck.fill data).1 = ck.rOfs + data.length := by
  have hr := (fill_spec h data).2.2.2.2
  rw [fill_eq h, capacity_eq h] at hr ⊢
  refine ⟨rfl, rfl, ?_, ?_⟩
  · change ck.blockSize - _ = ck.blockSize - ck.rOfs - data.length
    rw [hr]
    omega
  · rw [hr]
    omega

namespace Chunks

variable {c : Chunks} {data : List UInt8}

structure Placed (c : Chunks) (data : List UInt8) (r : Nat × Chunks) : Prop where
  left : r.1 = data.length - c.room
  room : r.2.room = c.room - data.length
  sizes : r.2.blockSizes = c.blockSizes
  written : r.2.written + r.1 = c.written + data.length
  alloc : r.2.ckAllocSize = c.ckAllocSize
  maxSize : r.2.cMaxSize = c.cMaxSize
  residentSize : r.2.cResidentSize = c.cResidentSize
  freeCapacity : c.ckFreeCkCapacity = c.freeRoom → c.freeRoom < 2 ^ 32 →
    r.2.ckFreeCkCapacity = r.2.freeRoom
  ready : r.2.readyCks = [] → c.readyCks = []

private theorem lastRoom_of_getLast? {ck : DataChunk} (h : c.readyCks.getLast? = some ck) :
    c.lastRoom = ck.room := by
  simp [lastRoom, h]

theorem copyDataIntoReadyCK_placed (h : c.Sound) (data : List UInt8) :
    Placed { c with freeCks := [] } data
        ((c.copyDataIntoReadyCK data).1, { (c.copyDataIntoReadyCK data).2 with freeCks := [] }) ∧
      (c.copyDataIntoReadyCK data).2.freeCks = c.freeCks ∧
      (c.copyDataIntoReadyCK data).2.ckFreeCkCapacity = c.ckFreeCkCapacity := by
  unfold copyDataIntoReadyCK
  cases hlast : c.readyCks.getLast? with
  | none =>
    have hnil : c.readyCks = [] := List.getLast?_eq_none_iff.1 hlast
    refine ⟨⟨?_, ?_, rfl, rfl, rfl, rfl, rfl, fun hfree _ => hfree, fun _ => hnil⟩, rfl, rfl⟩
    · simp [room, lastRoom, freeRoom, hnil]
    · simp [room, lastRoom, freeRoom, hnil]
  | some ck =>
    have hsplit : c.readyCks = c.readyCks.dropLast ++ [ck] :=
      (List.dropLast_append_getLast? ck hlast).symm
    obtain ⟨hleft, hblock, hroom, hofs⟩ :=
      DataChunk.fill_room (h.ready ck (List.mem_of_getLast? hlast)).1 data
    refine ⟨⟨?_, ?_, ?_, ?_, rfl, rfl, rfl, fun hfree _ => hfree, ?_⟩, rfl, rfl⟩
    · simp [room, lastRoom, freeRoom, hlast, hleft]
    · simp [room, lastRoom, freeRoom, hlast, hroom]
    · simp only [blockSizes, List.append_nil]
      rw [hsplit]
      simp [hblock]
    · simp only [written]
      rw [hsplit]
      simp only [List.map_append, List.sum_append, List.map_cons, List.map_nil, List.sum_cons, List.sum_nil,
        List.dropLast_concat]
      omega
    · simp

@[simp] theorem copyFreeLoop_nil (frees : List DataChunk) (c : Chunks) :
    copyFreeLoop frees c [] = (0, c) := by
  cases frees <;> simp [copyFreeLoop]

theorem reuseFree_placed {ck : DataChunk} {frees : List DataChunk} (h : c.Sound)
    (hfrees : c.freeCks = ck :: frees) (data : List UInt8) :
    let next := c.reuseFree ck (ck.fill data).2 frees
    (ck.fill data).1 = data.length - ck.blockSize ∧ next.lastRoom = ck.blockSize - data.length ∧
      next.freeRoom + ck.blockSize = c.freeRoom ∧ next.blockSizes = c.blockSizes ∧
      next.written + (ck.fill data).1 = c.written + data.length ∧
      (c.ckFreeCkCapacity = c.freeRoom → c.freeRoom < 2 ^ 32 →
        next.ckFreeCkCapacity = next.freeRoom) := by
  intro next
  obtain ⟨hck, hzero, -⟩ := h.free ck (by rw [hfrees]; exact List.mem_cons_self)
  have hckroom : ck.room = ck.blockSize := by rw [DataChunk.room, hzero, Nat.sub_zero]
  obtain ⟨hleft, hblock, hroom, hofs⟩ := DataChunk.fill_room hck data
  have hfree : next.freeRoom + ck.blockSize = c.freeRoom := by
    simp only [next, freeRoom, reuseFree, hfrees, List.map_cons, List.sum_cons]
    omega
  rw [hckroom] at hleft hroom
  refine ⟨hleft, ?_, hfree, ?_, ?_, ?_⟩
  · simp [next, reuseFree, lastRoom, hroom]
  · simp [next, blockSizes, reuseFree, hfrees, hblock]
  · simp only [next, written, reuseFree, List.map_append, List.map_cons, List.map_nil, List.sum_append,
      List.sum_cons, List.sum_nil]
    omega
  · intro hcounter hlt
    have hsub : next.ckFreeCkCapacity = wordSub 32 c.ckFreeCkCapacity ck.blockSize := rfl
    rw [hsub, hcounter, wordSub_of_le (by omega) hlt]
    omega

private theorem placed_rest {c₁ : Chunks} {r : Nat × Chunks} {first left : Nat}
    (hleft : left = data.length - first) (hmore : left ≠ 0) (hroom : c.room = first + c₁.room)
    (hwritten : c₁.written + left = c.written + data.length)
    (hrest : Placed c₁ (data.drop (data.length - left)) r) :
    r.1 = data.length - c.room ∧ r.2.room = c.room - data.length ∧
      r.2.written + r.1 = c.written + data.length := by
  have hlength : (data.drop (data.length - left)).length = left := by
    rw [List.length_drop]
    omega
  have hleft' := hrest.left
  have hroom' := hrest.room
  have hwritten' := hrest.written
  rw [hlength] at hleft' hroom' hwritten'
  refine ⟨?_, ?_, ?_⟩ <;> omega

private theorem copyFreeLoop_placed {frees : List DataChunk} (h : c.Sound) (hfrees : c.freeCks = frees)
    (hlast : c.lastRoom = 0) (data : List UInt8) : Placed c data (copyFreeLoop frees c data) := by
  induction frees generalizing c data with
  | nil =>
    have hroom : c.room = 0 := by simp [room, hlast, freeRoom, hfrees]
    exact ⟨by simp [copyFreeLoop, hroom], by simp [copyFreeLoop, hroom], rfl, rfl, rfl, rfl, rfl,
      fun hfree _ => hfree, id⟩
  | cons ck frees ih =>
    by_cases hdata : data.length > 0
    swap
    · obtain rfl : data = [] := List.eq_nil_of_length_eq_zero (by omega)
      rw [copyFreeLoop_nil]
      exact ⟨by simp, by simp, rfl, rfl, rfl, rfl, rfl, fun hfree _ => hfree, id⟩
    obtain ⟨hleft, hlast', hfree, hsizes, hwritten, hcounter⟩ := reuseFree_placed h hfrees data
    have hnext := (copyFreeLoop_step h hfrees hdata).1
    have hroom : c.room = c.freeRoom := by rw [room, hlast, Nat.zero_add]
    have hready : (c.reuseFree ck (ck.fill data).2 frees).readyCks ≠ [] := by simp [reuseFree]
    rw [copyFreeLoop, if_pos hdata]
    by_cases hdone : (ck.fill data).1 = 0
    · -- the data ends in this block
      rw [hdone, Nat.sub_zero, List.drop_length, copyFreeLoop_nil]
      refine ⟨by omega, ?_, hsizes, ?_, rfl, rfl, rfl, hcounter, fun hnil => absurd hnil hready⟩
      · dsimp only [Chunks.room]
        omega
      · dsimp only
        omega
    · have hempty : (c.reuseFree ck (ck.fill data).2 frees).lastRoom = 0 := by omega
      have hrest := ih hnext rfl hempty (data.drop (data.length - (ck.fill data).1))
      have hroom' : c.room = ck.blockSize + (c.reuseFree ck (ck.fill data).2 frees).room := by
        rw [hroom, ← hfree, room, hempty, Nat.zero_add, Nat.add_comm]
      obtain ⟨hleft', hroom'', hwritten'⟩ := placed_rest hleft hdone hroom' hwritten hrest
      refine ⟨hleft', hroom'', hrest.sizes.trans hsizes, hwritten', hrest.alloc, hrest.maxSize,
        hrest.residentSize, fun hsum hlt => ?_, fun hnil => absurd (hrest.ready hnil) hready⟩
      exact hrest.freeCapacity (hcounter hsum hlt) (by omega)

theorem place_placed (h : c.Sound) (data : List UInt8) : Placed c data (c.place data) := by
  have hready := copyDataIntoReadyCK_copied h data
  obtain ⟨hplaced, hfrees, hcounter⟩ := copyDataIntoReadyCK_placed h data
  unfold place
  generalize c.copyDataIntoReadyCK data = r at hready hplaced hfrees hcounter ⊢
  obtain ⟨left, c₁⟩ := r
  simp only at hplaced hfrees hcounter ⊢
  have hleft : left = data.length - c.lastRoom := hplaced.left
  have hlast : c₁.lastRoom = c.lastRoom - data.length := hplaced.room
  have hfree : c₁.freeRoom = c.freeRoom := by rw [freeRoom, hfrees, freeRoom]
  have hsizes : c₁.blockSizes = c.blockSizes := by
    have hreadies := hplaced.sizes
    simp only [blockSizes, List.append_nil] at hreadies
    rw [blockSizes, blockSizes, hfrees, List.map_append, List.map_append, hreadies]
  have hwritten : c₁.written + left = c.written + data.length := hplaced.written
  by_cases hdone : left = 0
  · rw [if_pos hdone]
    refine ⟨?_, ?_, hsizes, by simp only; omega, hplaced.alloc, hplaced.maxSize, hplaced.residentSize, ?_,
      hplaced.ready⟩
    · simp only [room]
      omega
    · simp only [room, hlast, hfree]
      omega
    · intro hsum _
      rw [hcounter, hfree, hsum]
  · rw [if_neg hdone, copyDataIntoFreeCK]
    have hempty : c₁.lastRoom = 0 := by omega
    have hsound : c₁.Sound := hready.sound
    have hrest := copyFreeLoop_placed hsound rfl hempty (data.drop (data.length - left))
    have hroom : c.room = c.lastRoom + c₁.room := by rw [room, room, hempty, hfree, Nat.zero_add]
    obtain ⟨hleft', hroom', hwritten'⟩ := placed_rest hleft hdone hroom hwritten hrest
    refine ⟨hleft', hroom', hrest.sizes.trans hsizes, hwritten', hrest.alloc.trans hplaced.alloc,
      hrest.maxSize.trans hplaced.maxSize, hrest.residentSize.trans hplaced.residentSize, ?_, ?_⟩
    · intro hsum hlt
      exact hrest.freeCapacity (by rw [hcounter, hfree, hsum]) (by rw [hfree]; exact hlt)
    · exact fun hnil => hplaced.ready (hrest.ready hnil)

theorem copyDataIntoChunks_of_room (h : c.Sound) (malloc : Bool) (hfit : data.length ≤ c.room) :
    c.copyDataIntoChunks malloc data = (0, (c.place data).2) := by
  rw [copyDataIntoChunks_eq h, if_pos]
  rw [(place_placed h data).left]
  omega

theorem copyDataIntoChunks_of_full (h : c.Sound) (malloc : Bool) (hfull : c.room < data.length) :
    c.copyDataIntoChunks malloc data =
      (c.place data).2.copyDataIntoNewChunk malloc (data.drop c.room) := by
  have hleft := (place_placed h data).left
  rw [copyDataIntoChunks_eq h, if_neg (by omega), hleft]
  congr 2
  omega

private theorem place_pendingBytes (h : c.Sound) (data : List UInt8) :
    (c.place data).2.pendingBytes = c.pendingBytes ++ data.take c.room := by
  have hbytes := (place_copied h data).bytes
  have hcut : data.length - (c.place data).1 = min c.room data.length := by
    rw [(place_placed h data).left]
    omega
  rw [hcut] at hbytes
  have hall : (c.place data).2.pendingBytes ++ data.drop c.room =
      c.pendingBytes ++ data.take c.room ++ data.drop c.room := by
    rw [List.append_assoc, List.take_append_drop, ← hbytes]
    by_cases hle : c.room ≤ data.length
    · rw [Nat.min_eq_left hle]
    · rw [Nat.min_eq_right (by omega), List.drop_length, List.drop_of_length_le (by omega)]
  exact List.append_cancel_right hall

/-- The memory a copy of `length` bytes asks for, and the room it leaves. -/
def memoryFor (room : Nat) (malloc : Bool) (length : Nat) : Nat :=
  if length ≤ room ∨ malloc = false then 0 else ckCeilToK 1024 (dataChunkSize + (length - room))

def roomAfter (room : Nat) (malloc : Bool) (length : Nat) : Nat :=
  if length ≤ room ∨ malloc = false then room - length
  else ckCeilToK 1024 (dataChunkSize + (length - room)) - dataChunkSize - (length - room)

theorem copyDataIntoNewChunk_eq (h : c.Sound) (hlen : dataChunkSize + data.length < 2 ^ 31) :
    c.copyDataIntoNewChunk true data = (0, { c with
      readyCks := c.readyCks ++
        [⟨ckCeilToK 1024 (dataChunkSize + data.length) - dataChunkSize, 0, data.length, data⟩]
      ckAllocSize := wordAdd 32 c.ckAllocSize (ckCeilToK 1024 (dataChunkSize + data.length)) }) := by
  obtain ⟨hlo, hhi, -⟩ := ckCeilToK_bounds hlen
  have hblock : wordSub 32 (ckCeilToK 1024 (dataChunkSize + data.length)) dataChunkSize =
      ckCeilToK 1024 (dataChunkSize + data.length) - dataChunkSize := wordSub_of_le (by omega) (by omega)
  have hsize : (dataChunkSize + data.length) % 2 ^ 32 = dataChunkSize + data.length :=
    Nat.mod_eq_of_lt (by omega)
  simp only [copyDataIntoNewChunk, h.threshold, hsize, hblock, if_true]

theorem copyDataIntoChunks_pendingBytes (h : c.Sound) (malloc : Bool) (hlen : data.length ≤ 2 ^ 30) :
    (c.copyDataIntoChunks malloc data).2.pendingBytes = c.pendingBytes ++
      if data.length ≤ c.room ∨ malloc = true then data else data.take c.room := by
  by_cases hfit : data.length ≤ c.room
  · rw [copyDataIntoChunks_of_room h malloc hfit, if_pos (.inl hfit), place_pendingBytes h,
      List.take_of_length_le hfit]
  · cases malloc with
    | true => rw [if_pos (.inr rfl), (copyDataIntoChunks_spec h hlen).2.2]
    | false =>
      rw [if_neg (by simpa using hfit), copyDataIntoChunks_of_full h false (by omega)]
      exact place_pendingBytes h data

theorem copyDataIntoChunks_room (h : c.Sound) (malloc : Bool) (hlen : data.length ≤ 2 ^ 30) :
    (c.copyDataIntoChunks malloc data).2.room = roomAfter c.room malloc data.length := by
  have hplaced := place_placed h data
  have hroom := hplaced.room
  unfold roomAfter
  by_cases hfit : data.length ≤ c.room
  · rw [copyDataIntoChunks_of_room h malloc hfit, if_pos (.inl hfit)]
    exact hroom
  · rw [copyDataIntoChunks_of_full h malloc (by omega)]
    cases malloc with
    | false =>
      rw [if_pos (.inr rfl)]
      exact hroom
    | true =>
      have hlength : (data.drop c.room).length = data.length - c.room := List.length_drop
      have hfree : (c.place data).2.freeRoom = 0 := by
        rw [room] at hroom
        omega
      rw [if_neg (by simpa using hfit), copyDataIntoNewChunk_eq (place_copied h data).sound
        (by rw [hlength, dataChunkSize]; omega), hlength]
      simpa [room, lastRoom, freeRoom, DataChunk.room] using hfree

/-- `useExistingChunk` says yes: the free blocks are enough where no block is ready, or the last
ready block is filled exactly. With more room than that, the length is subtracted from and wraps. -/
def Reusable (c : Chunks) (length : Nat) : Prop :=
  if c.readyCks = [] then length ≤ c.ckFreeCkCapacity
  else c.lastRoom = length ∨
    length < c.lastRoom ∧ 2 ^ 32 - (c.lastRoom - length) ≤ c.ckFreeCkCapacity

def WithinLimit (c : Chunks) (length : Nat) : Prop := (c.ckAllocSize + length) % 2 ^ 32 ≤ c.cMaxSize

instance decidableReusable (c : Chunks) (length : Nat) : Decidable (c.Reusable length) :=
  inferInstanceAs (Decidable (if c.readyCks = [] then length ≤ c.ckFreeCkCapacity
    else c.lastRoom = length ∨
      length < c.lastRoom ∧ 2 ^ 32 - (c.lastRoom - length) ≤ c.ckFreeCkCapacity))

instance decidableWithinLimit (c : Chunks) (length : Nat) : Decidable (c.WithinLimit length) :=
  inferInstanceAs (Decidable (_ ≤ _))

private theorem useExistingChunk_iff (h : c.Sound) {length : Nat} (hlength : length < 2 ^ 32) :
    c.useExistingChunk length = true ↔ c.Reusable length := by
  unfold useExistingChunk Reusable
  cases hlast : c.readyCks.getLast? with
  | none =>
    have hnil : c.readyCks = [] := List.getLast?_eq_none_iff.1 hlast
    simp [hnil]
  | some ck =>
    have hmem := List.mem_of_getLast? hlast
    have hne : c.readyCks ≠ [] := List.ne_nil_of_mem hmem
    have hck := (h.ready ck hmem).1
    have hblock := hck.block_lt
    have hcap : ck.capacity = c.lastRoom := by
      rw [DataChunk.capacity_eq hck, lastRoom_of_getLast? hlast, DataChunk.room]
    have hroom : c.lastRoom < 2 ^ 32 := by
      rw [lastRoom_of_getLast? hlast, DataChunk.room]
      omega
    simp only [hcap, if_neg hne]
    by_cases hshort : c.lastRoom < length
    · simp only [if_pos hshort]
      constructor
      · exact nofun
      · omega
    · rw [if_neg hshort]
      by_cases hexact : c.lastRoom = length
      · have hzero : wordSub 32 length length = 0 := by
          rw [wordSub_of_le (Nat.le_refl _) hlength, Nat.sub_self]
        simp [hzero, hexact]
      · rw [wordSub_of_lt (by omega) hroom, decide_eq_true_iff]
        constructor
        · intro hle
          exact .inr ⟨by omega, hle⟩
        · rintro (heq | ⟨-, hle⟩)
          · exact absurd heq hexact
          · exact hle

theorem checkCapacity_iff (h : c.Sound) {length : Nat} (hlength : length < 2 ^ 32) :
    c.checkCapacity length = true ↔ c.Reusable length ∨ c.WithinLimit length := by
  rw [← useExistingChunk_iff h hlength, checkCapacity, WithinLimit]
  rw [show wordAdd 32 c.ckAllocSize length = (c.ckAllocSize + length) % 2 ^ 32 by rw [wordAdd]]
  cases c.useExistingChunk length <;> simp

/-- A property that outlives each thing a drain does to the buffer, whatever the callback answers:
the drain returns with blocks still ready, or the water level was checked after the last one. -/
theorem drainLoop_invariant {σ : Type} {P : Chunks → Prop} {cb : Sink σ UInt8} {turns : Nat} {st st' : σ}
    {ret : Int} {c c' : Chunks}
    (hretire : ∀ c cur readies, P c → c.readyCks = cur :: readies → P (c.retireReady cur readies))
    (hadvance : ∀ c cur readies (n : Nat), P c → c.readyCks = cur :: readies →
      (n : Int) < toSigned 32 (wordSub 32 cur.rOfs cur.lOfs) → P (c.advanceReady cur readies n))
    (h : P c) (hrun : drainLoop cb turns st c = some (ret, st', c')) :
    P c' ∧ c'.readyCks ≠ [] ∨ ∃ d, P d ∧ d.readyCks = [] ∧ c' = d.checkWaterLevel := by
  induction turns generalizing st c with
  | zero => cases hrun
  | succ turns ih =>
    unfold drainLoop at hrun
    cases hready : c.readyCks with
    | nil =>
      simp only [hready, Option.some.injEq, Prod.mk.injEq] at hrun
      exact .inr ⟨c, h, hready, hrun.2.2.symm⟩
    | cons cur readies =>
      simp only [hready] at hrun
      split at hrun
      · cases hrun
        exact .inl ⟨h, by simp [hready]⟩
      · next hpos =>
        split at hrun
        · exact ih (hretire c cur readies h hready) hrun
        · split at hrun
          · next hless =>
            apply ih (hadvance c cur readies _ h hready _) hrun
            rwa [Int.toNat_of_nonneg (by omega)]
          · exact ih h hrun

end Chunks

/-- A call on the buffer. The allocator decides whether a new block is to be had, and a callback may
answer anything; `turns` is how often a drain calls it. -/
inductive ChunkCall (σ : Type) where
  | copy (malloc : Bool) (data : List UInt8)
  | drain (cb : Sink σ UInt8) (turns : Nat)
  | reset

/-- The buffer and the state of the callbacks after a call. There is no step for a length that is no
`uint32_t`, for a copy that runs past its block and for a drain that has not returned. -/
def ChunkCall.step {σ : Type} (s : Chunks × σ) : ChunkCall σ → Option (Chunks × σ)
  | .copy malloc data =>
    if data.length < 2 ^ 32 ∧ (malloc = true → s.1.overrunsNewChunk data = false) then
      some ((s.1.copyDataIntoChunks malloc data).2, s.2)
    else none
  | .drain cb turns =>
    if s.1.readyCks = [] then some s
    else (Chunks.drainLoop cb turns s.2 s.1).map fun r => (r.2.2, r.2.1)
  | .reset => some (s.1.resetChunks, s.2)

section Reachable

variable {σ : Type} {maxSize residentSize : Nat} {c₀ : Chunks} {s t : Chunks × σ}

private theorem ChunkCall.step_sound {call : ChunkCall σ} (h : s.1.Sound) (hstep : call.step s = some t) :
    t.1.Sound := by
  cases call with
  | copy malloc data =>
    simp only [step] at hstep
    split at hstep
    · next hfit =>
      cases hstep
      exact Chunks.copyDataIntoChunks_sound h hfit.2
    · cases hstep
  | drain cb turns =>
    simp only [step] at hstep
    split at hstep
    · cases hstep
      exact h
    · obtain ⟨⟨ret, st', c'⟩, hrun, rfl⟩ := Option.map_eq_some_iff.1 hstep
      obtain ⟨hsound, -⟩ | ⟨d, hd, -, rfl⟩ := Chunks.drainLoop_invariant (P := Chunks.Sound)
        (fun _ _ _ h hready => h.retireReady hready)
        (fun _ _ _ _ h hready hn => h.advanceReady hready hn) h hrun
      · exact hsound
      · exact (Chunks.waterLoop_sound d.freeCks.length hd).1
  | reset =>
    cases hstep
    exact (Chunks.resetChunks_spec h).1

private theorem sound_of_exec {calls : List (ChunkCall σ)} {st : σ}
    (hnew : Chunks.new maxSize residentSize = .ok c₀)
    (hrun : exec ChunkCall.step (c₀, st) calls = some t) : t.1.Sound :=
  exec_invariant (P := fun s : Chunks × σ => s.1.Sound) (fun _ _ _ => ChunkCall.step_sound)
    (Chunks.new_sound hnew).1 hrun

/-- In every reachable state, data that fits into the room behind the last ready block and in the
free blocks is copied without a new block; `checkCapacity` lets it pass if and only if the 32-bit
sum with the memory held is within the limit, or `useExistingChunk` happens to say yes. -/
theorem check_capacity_passes_iff (hnew : Chunks.new maxSize residentSize = .ok c₀)
    (hmax : maxSize < 2 ^ 32) {calls : List (ChunkCall σ)} {st : σ}
    (hrun : exec ChunkCall.step (c₀, st) calls = some t) {length : Nat}
    (hlength : length ≤ maxSize) (hfits : length ≤ t.1.room) :
    (∀ data : List UInt8, data.length = length → (t.1.copyDataIntoChunks false data).1 = 0) ∧
      (t.1.checkCapacity length = true ↔ t.1.WithinLimit length ∨ t.1.Reusable length) := by
  have h := sound_of_exec hnew hrun
  constructor
  · intro data hdata
    rw [Chunks.copyDataIntoChunks_of_room h false (hdata ▸ hfits)]
  · rw [Chunks.checkCapacity_iff h (by omega), or_comm]

end Reachable

def emptyBuffer : Chunks := ⟨[], [], 0, 1100, 1024, 0, 0⟩

def oneByteBuffer : Chunks := ⟨[⟨1012, 0, 1, [1]⟩], [], 0, 1100, 1024, 1024, 0⟩

private theorem exec_oneByte :
    exec ChunkCall.step (emptyBuffer, ()) [.copy true [1]] = some (oneByteBuffer, ()) := by
  decide +kernel

theorem check_capacity_passes_iff_exact_fit :
    (∀ data : List UInt8, data.length = 1011 → (oneByteBuffer.copyDataIntoChunks false data).1 = 0) ∧
      (oneByteBuffer.checkCapacity 1011 = true ↔
        oneByteBuffer.WithinLimit 1011 ∨ oneByteBuffer.Reusable 1011) :=
  check_capacity_passes_iff (show Chunks.new 1100 0 = .ok emptyBuffer from rfl) (by decide) exec_oneByte
    (by decide) (by decide)

/-- One block of 1024 bytes is held, and 1011 bytes of it are free: a hundred bytes would fit
and are refused. -/
theorem fitting_data_refused :
    Chunks.new 1100 0 = .ok emptyBuffer ∧
      exec ChunkCall.step (emptyBuffer, ()) [.copy true [1]] = some (oneByteBuffer, ()) ∧
      oneByteBuffer.room = 1011 ∧ oneByteBuffer.checkCapacity 100 = false :=
  ⟨rfl, exec_oneByte, by decide, by decide +kernel⟩

end PinpointAgent.Cache
