import Mathlib.Algebra.Order.BigOperators.Group.List
import PinpointAgent.Cache.Room

/-!
# The counters of the send buffer

`ck_alloc_size` and `ck_free_ck_capacity` are kept by hand as blocks are allocated, move between the
lists and are freed. They are exact as long as the memory held stays below `2 ^ 32`; with less than
`2 ^ 31` bytes copied in all it does, since a new block is asked for only when every block there is
has been filled to its end.
-/

namespace PinpointAgent.Cache

open Framework

namespace Chunks

def held (c : Chunks) : Nat :=
  ((c.readyCks ++ c.freeCks).map fun ck => ck.blockSize + dataChunkSize).sum

structure Accounted (c : Chunks) : Prop where
  sound : c.Sound
  alloc : c.ckAllocSize = c.held
  held_lt : c.held < 2 ^ 32
  freeCapacity : c.ckFreeCkCapacity = c.freeRoom

/-- At most `total` bytes were written to the ready blocks, and the blocks are no larger than what
was written and what is free. -/
structure Filled (total : Nat) (c : Chunks) : Prop where
  blocks_ge : ∀ size ∈ c.blockSizes, 1012 ≤ size
  blocks_le : c.blockSizes.sum ≤ c.written + c.room
  written_le : c.written ≤ total

section Sizes

variable {c d : Chunks}

private theorem held_eq (c : Chunks) : c.held = (c.blockSizes.map (· + dataChunkSize)).sum := by
  simp [held, blockSizes, Function.comp_def]

private theorem held_of_perm (h : d.blockSizes.Perm c.blockSizes) : d.held = c.held := by
  rw [held_eq, held_eq]
  exact (h.map _).sum_nat

theorem freeRoom_le_held (c : Chunks) : c.freeRoom ≤ c.held := by
  have hle (l : List DataChunk) : (l.map DataChunk.blockSize).sum ≤
      (l.map fun ck => ck.blockSize + dataChunkSize).sum := by
    induction l with
    | nil => simp
    | cons ck l ih =>
      simp only [List.map_cons, List.sum_cons]
      omega
  rw [held, List.map_append, List.sum_append, freeRoom]
  exact (hle c.freeCks).trans (Nat.le_add_left _ _)

private theorem held_le (h : ∀ size ∈ c.blockSizes, 1012 ≤ size) : 1012 * c.held ≤ 1024 * c.blockSizes.sum := by
  rw [held_eq]
  generalize c.blockSizes = sizes at h
  induction sizes with
  | nil => simp
  | cons size sizes ih =>
    have hhead := h size List.mem_cons_self
    have htail := ih fun other hother => h other (List.mem_cons_of_mem _ hother)
    simp only [List.map_cons, List.sum_cons, dataChunkSize] at htail ⊢
    omega

private theorem filled_of_idle (hready : c.readyCks = []) (h : ∀ size ∈ c.blockSizes, 1012 ≤ size) (total : Nat) :
    c.Filled total := by
  refine ⟨h, ?_, ?_⟩
  · simp only [blockSizes, room, freeRoom, hready, List.nil_append]
    omega
  · simp [written, hready]

end Sizes

section Moves

variable {c : Chunks} {cur : DataChunk} {readies : List DataChunk} {n total : Nat}

private theorem blockSizes_retireReady (hready : c.readyCks = cur :: readies) :
    (c.retireReady cur readies).blockSizes.Perm c.blockSizes := by
  simp only [blockSizes, retireReady, hready, List.map_append, List.map_cons]
  exact List.perm_middle

private theorem freeRoom_retireReady (c : Chunks) (cur : DataChunk) (readies : List DataChunk) :
    (c.retireReady cur readies).freeRoom = c.freeRoom + cur.blockSize := by
  simp [freeRoom, Chunks.retireReady, DataChunk.rewind, Nat.add_comm]

theorem Accounted.retireReady (h : c.Accounted) (hready : c.readyCks = cur :: readies) :
    (c.retireReady cur readies).Accounted := by
  have hheld := held_of_perm (blockSizes_retireReady hready)
  have hfree := freeRoom_retireReady c cur readies
  have hle := freeRoom_le_held (c.retireReady cur readies)
  refine ⟨h.sound.retireReady hready, hheld ▸ h.alloc, hheld ▸ h.held_lt, ?_⟩
  rw [hfree, ← h.freeCapacity]
  apply wordAdd_of_lt
  rw [h.freeCapacity, ← hfree]
  exact lt_of_le_of_lt (hheld ▸ hle) h.held_lt

theorem Accounted.advanceReady (h : c.Accounted) (hready : c.readyCks = cur :: readies)
    (hn : (n : Int) < toSigned 32 (wordSub 32 cur.rOfs cur.lOfs)) :
    (c.advanceReady cur readies n).Accounted := by
  have hheld : (c.advanceReady cur readies n).held = c.held := by
    simp [held, Chunks.advanceReady, hready]
  exact ⟨h.sound.advanceReady hready hn, hheld ▸ h.alloc, hheld ▸ h.held_lt, h.freeCapacity⟩

private theorem Filled.retireReady (h : c.Filled total) (hready : c.readyCks = cur :: readies)
    (hcur : cur.rOfs ≤ cur.blockSize) : (c.retireReady cur readies).Filled total := by
  have hperm := blockSizes_retireReady hready
  have hwritten : (c.retireReady cur readies).written + cur.rOfs = c.written := by
    simp [written, Chunks.retireReady, hready, Nat.add_comm]
  have hlast : c.lastRoom + cur.rOfs ≤ (c.retireReady cur readies).lastRoom + cur.blockSize := by
    cases readies with
    | nil =>
      simp only [lastRoom, hready, List.getLast?_singleton, Option.map_some, Option.getD_some,
        DataChunk.room]
      omega
    | cons next readies =>
      simp only [lastRoom, Chunks.retireReady, hready, List.getLast?_cons_cons]
      omega
  have hblocks := h.blocks_le
  have htotal := h.written_le
  refine ⟨fun size hsize => h.blocks_ge size (hperm.mem_iff.1 hsize), ?_, by omega⟩
  rw [hperm.sum_nat, room, freeRoom_retireReady]
  rw [room] at hblocks
  omega

private theorem Filled.advanceReady (h : c.Filled total) (hready : c.readyCks = cur :: readies) :
    (c.advanceReady cur readies n).Filled total := by
  have hsizes : (c.advanceReady cur readies n).blockSizes = c.blockSizes := by
    simp [blockSizes, Chunks.advanceReady, hready]
  have hwritten : (c.advanceReady cur readies n).written = c.written := by
    simp [written, Chunks.advanceReady, hready]
  have hroom : (c.advanceReady cur readies n).room = c.room := by
    cases readies <;> simp [room, lastRoom, freeRoom, Chunks.advanceReady, hready, DataChunk.room]
  exact ⟨hsizes ▸ h.blocks_ge, hsizes ▸ hwritten ▸ hroom ▸ h.blocks_le, hwritten ▸ h.written_le⟩

theorem Accounted.reduceFreeCK (h : c.Accounted) : c.reduceFreeCK.Accounted := by
  obtain ⟨hsound, -⟩ := reduceFreeCK_sound h.sound
  unfold Chunks.reduceFreeCK at hsound ⊢
  cases hfree : c.freeCks with
  | nil =>
    simp only [hfree] at hsound ⊢
    exact h
  | cons ck frees =>
    simp only [hfree] at hsound ⊢
    have halloc := h.alloc
    have hcapacity := h.freeCapacity
    have hlt := h.held_lt
    have hle := freeRoom_le_held c
    simp only [held, hfree, List.map_append, List.map_cons, List.sum_append, List.sum_cons] at halloc hlt hle
    simp only [freeRoom, hfree, List.map_cons, List.sum_cons] at hcapacity hle
    refine ⟨hsound, ?_, ?_, ?_⟩
    · simp only [held, List.map_append, List.sum_append]
      rw [wordSub_of_le (by omega) (by omega)]
      omega
    · simp only [held, List.map_append, List.sum_append]
      omega
    · simp only [freeRoom]
      rw [wordSub_of_le (by omega) (by omega)]
      omega

private theorem Accounted.waterLoop (h : c.Accounted) (turns : Nat) : (waterLoop turns c).Accounted := by
  induction turns generalizing c with
  | zero => exact h
  | succ turns ih =>
    unfold Chunks.waterLoop
    split
    · exact ih h.reduceFreeCK
    · exact h

private theorem waterLoop_blockSizes (turns : Nat) : (waterLoop turns c).blockSizes.Sublist c.blockSizes := by
  induction turns generalizing c with
  | zero => exact List.Sublist.refl _
  | succ turns ih =>
    unfold waterLoop
    split
    · apply ih.trans
      unfold reduceFreeCK
      cases hfree : c.freeCks with
      | nil => exact List.Sublist.refl _
      | cons ck frees =>
        simp only [blockSizes, hfree]
        exact ((List.Sublist.refl _).append (List.sublist_cons_self ck frees)).map _
    · exact List.Sublist.refl _

private theorem alloc_of_noBlocks (h : c.Accounted) (hready : c.readyCks = []) (hfree : c.freeCks = []) :
    c.ckAllocSize = 0 := by
  rw [h.alloc, held, hready, hfree]
  rfl

theorem waterLoop_resident (h : c.Accounted) (hready : c.readyCks = []) {turns : Nat}
    (hturns : c.freeCks.length ≤ turns) :
    (waterLoop turns c).ckAllocSize ≤ (waterLoop turns c).cResidentSize := by
  induction turns generalizing c with
  | zero =>
    have hfree : c.freeCks = [] := List.eq_nil_of_length_eq_zero (Nat.le_zero.1 hturns)
    rw [waterLoop, alloc_of_noBlocks h hready hfree]
    exact Nat.zero_le _
  | succ turns ih =>
    unfold waterLoop
    split
    · next hmore =>
      apply ih h.reduceFreeCK ((reduceFreeCK_sound h.sound).2.trans hready)
      unfold reduceFreeCK
      cases hfree : c.freeCks with
      | nil => exact absurd hfree hmore.2
      | cons ck frees =>
        rw [hfree, List.length_cons] at hturns
        exact Nat.le_of_succ_le_succ hturns
    · next hstop =>
      by_cases hfree : c.freeCks = []
      · rw [alloc_of_noBlocks h hready hfree]
        exact Nat.zero_le _
      · by_contra hover
        exact hstop ⟨by omega, hfree⟩

private theorem waterLoop_limits (turns : Nat) :
    (waterLoop turns c).cMaxSize = c.cMaxSize ∧ (waterLoop turns c).cResidentSize = c.cResidentSize := by
  induction turns generalizing c with
  | zero => exact ⟨rfl, rfl⟩
  | succ turns ih =>
    unfold waterLoop
    split
    · rw [ih.1, ih.2]
      unfold reduceFreeCK
      cases c.freeCks <;> exact ⟨rfl, rfl⟩
    · exact ⟨rfl, rfl⟩

private theorem Accounted.permFree (h : c.Accounted) {frees : List DataChunk} (hperm : frees.Perm c.freeCks) :
    Accounted { c with freeCks := frees } := by
  have hheld : held { c with freeCks := frees } = c.held :=
    held_of_perm ((hperm.append_left c.readyCks).map DataChunk.blockSize)
  refine ⟨⟨h.sound.ready, fun ck hck => h.sound.free ck (hperm.mem_iff.1 hck), h.sound.threshold⟩,
    hheld ▸ h.alloc, hheld ▸ h.held_lt, ?_⟩
  exact h.freeCapacity.trans (hperm.map DataChunk.blockSize).sum_nat.symm

theorem resetLoop_accounted (h : c.Accounted) (hready : c.readyCks = readies) :
    (resetLoop readies c).Accounted ∧ (resetLoop readies c).readyCks = [] ∧
      (resetLoop readies c).blockSizes.Perm c.blockSizes := by
  induction readies generalizing c with
  | nil => exact ⟨h, hready, List.Perm.refl _⟩
  | cons ck readies ih =>
    -- a drained block goes to the front of the free list, a dropped one to its end
    have hperm : (c.freeCks ++ [ck.rewind]).Perm (c.retireReady ck readies).freeCks :=
      List.perm_append_singleton _ _
    obtain ⟨hrest, hempty, hsizes⟩ := ih ((h.retireReady hready).permFree hperm) rfl
    refine ⟨hrest, hempty, hsizes.trans (List.Perm.trans ?_ (blockSizes_retireReady hready))⟩
    exact (hperm.append_left readies).map DataChunk.blockSize

structure Settled (c c' : Chunks) : Prop where
  accounted : c'.Accounted
  held_le : c'.held ≤ c.held
  filled : ∀ total, c.Filled total → c'.Filled total
  maxSize : c'.cMaxSize = c.cMaxSize
  residentSize : c'.cResidentSize = c.cResidentSize
  resident : c'.readyCks = [] → c'.ckAllocSize ≤ c'.cResidentSize

private theorem Accounted.checkWaterLevel (h : c.Accounted) (hready : c.readyCks = []) :
    Settled c c.checkWaterLevel ∧ c.checkWaterLevel.readyCks = [] := by
  have hsizes : c.checkWaterLevel.blockSizes.Sublist c.blockSizes := waterLoop_blockSizes _
  have hempty : c.checkWaterLevel.readyCks = [] := (waterLoop_sound _ h.sound).2.trans hready
  have hlimits := waterLoop_limits (c := c) c.freeCks.length
  refine ⟨⟨h.waterLoop _, ?_, ?_, hlimits.1, hlimits.2, ?_⟩, hempty⟩
  · rw [held_eq, held_eq]
    exact (hsizes.map _).sum_le_sum fun _ _ => Nat.zero_le _
  · intro total hfilled
    exact filled_of_idle hempty (fun size hsize => hfilled.blocks_ge size (hsizes.subset hsize)) total
  · intro _
    exact waterLoop_resident h hready (Nat.le_refl _)

theorem Accounted.resetChunks (h : c.Accounted) :
    Settled c c.resetChunks ∧ c.resetChunks.readyCks = [] := by
  obtain ⟨hrest, hempty, hsizes⟩ := resetLoop_accounted h rfl
  obtain ⟨hsettled, hready⟩ := hrest.checkWaterLevel hempty
  have hlimits (readies : List DataChunk) (c : Chunks) : (resetLoop readies c).cMaxSize = c.cMaxSize ∧
      (resetLoop readies c).cResidentSize = c.cResidentSize := by
    induction readies generalizing c with
    | nil => exact ⟨rfl, rfl⟩
    | cons ck readies ih => exact ih _
  refine ⟨⟨hsettled.accounted, ?_, ?_, ?_, ?_, hsettled.resident⟩, hready⟩
  · rw [← held_of_perm hsizes]
    exact hsettled.held_le
  · intro total hfilled
    apply hsettled.filled
    exact filled_of_idle hempty (fun size hsize => hfilled.blocks_ge size (hsizes.mem_iff.1 hsize)) total
  · exact hsettled.maxSize.trans (hlimits _ c).1
  · exact hsettled.residentSize.trans (hlimits _ c).2

theorem Accounted.drainLoop {σ : Type} {cb : Sink σ UInt8} {turns : Nat} {st st' : σ} {ret : Int}
    {c' : Chunks} (h : c.Accounted) (hrun : drainLoop cb turns st c = some (ret, st', c')) :
    Settled c c' := by
  -- what holds inside the loop, where the water level is not yet checked
  let P (d : Chunks) : Prop := d.Accounted ∧ d.held = c.held ∧ (∀ total, c.Filled total → d.Filled total) ∧
    d.cMaxSize = c.cMaxSize ∧ d.cResidentSize = c.cResidentSize
  have hretire (d : Chunks) (cur : DataChunk) (readies : List DataChunk) (hd : P d)
      (hready : d.readyCks = cur :: readies) : P (d.retireReady cur readies) := by
    obtain ⟨hacc, hheld, hfilled, hlimits⟩ := hd
    have hcur := (hacc.sound.ready cur (by rw [hready]; exact List.mem_cons_self)).1
    exact ⟨hacc.retireReady hready, (held_of_perm (blockSizes_retireReady hready)).trans hheld,
      fun total hf => (hfilled total hf).retireReady hready hcur.r_le, hlimits⟩
  have hadvance (d : Chunks) (cur : DataChunk) (readies : List DataChunk) (n : Nat) (hd : P d)
      (hready : d.readyCks = cur :: readies) (hn : (n : Int) < toSigned 32 (wordSub 32 cur.rOfs cur.lOfs)) :
      P (d.advanceReady cur readies n) := by
    obtain ⟨hacc, hheld, hfilled, hlimits⟩ := hd
    have hsame : (d.advanceReady cur readies n).held = d.held := by
      simp [held, Chunks.advanceReady, hready]
    exact ⟨hacc.advanceReady hready hn, hsame.trans hheld,
      fun total hf => (hfilled total hf).advanceReady hready, hlimits⟩
  obtain ⟨⟨hacc, hheld, hfilled, hmax, hresident⟩, hready⟩ |
      ⟨d, ⟨hacc, hheld, hfilled, hmax, hresident⟩, hready, rfl⟩ :=
    drainLoop_invariant hretire hadvance ⟨h, rfl, fun _ hf => hf, rfl, rfl⟩ hrun
  · exact ⟨hacc, hheld.le, hfilled, hmax, hresident, fun hnil => absurd hnil hready⟩
  · obtain ⟨hsettled, -⟩ := hacc.checkWaterLevel hready
    exact ⟨hsettled.accounted, hheld ▸ hsettled.held_le, fun total hf => hsettled.filled total (hfilled total hf),
      hsettled.maxSize.trans hmax, hsettled.residentSize.trans hresident, hsettled.resident⟩

end Moves

section Copies

variable {c : Chunks} {malloc : Bool} {data : List UInt8} {total : Nat}

/-- A copy keeps the counters exact as long as the new block can be counted. -/
structure Grown (c : Chunks) (malloc : Bool) (length : Nat) (c' : Chunks) : Prop where
  accounted : c'.Accounted
  held : c'.held = c.held + memoryFor c.room malloc length
  room : c'.room = roomAfter c.room malloc length
  maxSize : c'.cMaxSize = c.cMaxSize
  residentSize : c'.cResidentSize = c.cResidentSize
  ready : c'.readyCks = [] → c.readyCks = [] ∧ c'.ckAllocSize = c.ckAllocSize

private theorem place_accounted (h : c.Accounted) (data : List UInt8) :
    (c.place data).2.Accounted ∧ (c.place data).2.held = c.held := by
  have hplaced := place_placed h.sound data
  have hheld : (c.place data).2.held = c.held := held_of_perm (by rw [hplaced.sizes])
  refine ⟨⟨(place_copied h.sound data).sound, ?_, hheld ▸ h.held_lt, ?_⟩, hheld⟩
  · rw [hplaced.alloc, hheld, h.alloc]
  · exact hplaced.freeCapacity h.freeCapacity (lt_of_le_of_lt (freeRoom_le_held c) h.held_lt)

private theorem newChunk_sizes (h : c.Accounted) (hne : 0 < data.length)
    (hlen : dataChunkSize + data.length < 2 ^ 31)
    (hheld : c.held + ckCeilToK 1024 (dataChunkSize + data.length) < 2 ^ 32) :
    let c' := (c.copyDataIntoNewChunk true data).2
    let memory := ckCeilToK 1024 (dataChunkSize + data.length)
    c'.Accounted ∧ c'.held = c.held + memory ∧
      c'.blockSizes.Perm ((memory - dataChunkSize) :: c.blockSizes) ∧
      c'.written = c.written + data.length ∧
      c'.room = memory - dataChunkSize - data.length + c.freeRoom := by
  intro c' memory
  have hsound : c'.Sound := (copyDataIntoNewChunk_spec h.sound data hne hlen).2.1
  have hbounds := ckCeilToK_bounds hlen
  have hc' : c' = _ := congrArg Prod.snd (copyDataIntoNewChunk_eq h.sound hlen)
  simp only at hc'
  have hperm : c'.blockSizes.Perm ((memory - dataChunkSize) :: c.blockSizes) := by
    rw [hc', blockSizes, blockSizes]
    simp only [List.append_assoc, List.singleton_append, List.map_append, List.map_cons]
    exact List.perm_middle
  have hgrown : c'.held = c.held + memory := by
    rw [held_eq, held_eq, (hperm.map _).sum_nat, List.map_cons, List.sum_cons]
    omega
  refine ⟨⟨hsound, ?_, hgrown ▸ hheld, ?_⟩, hgrown, hperm, ?_, ?_⟩
  · rw [hgrown, ← h.alloc, hc']
    apply wordAdd_of_lt
    rw [h.alloc]
    exact hheld
  · rw [hc']
    exact h.freeCapacity
  · simp [hc', written]
  · simp [hc', room, lastRoom, freeRoom, DataChunk.room, memory]

theorem copyDataIntoChunks_grown (h : c.Accounted)
    (hfit : malloc = true → c.overrunsNewChunk data = false)
    (hheld : c.held + memoryFor c.room malloc data.length < 2 ^ 32) :
    c.Grown malloc data.length (c.copyDataIntoChunks malloc data).2 := by
  have hplaced := place_placed h.sound data
  obtain ⟨hacc, hsame⟩ := place_accounted h data
  by_cases hroom : data.length ≤ c.room
  · rw [copyDataIntoChunks_of_room h.sound malloc hroom]
    exact ⟨hacc, by simp [memoryFor, hroom, hsame], by simp [roomAfter, hroom, hplaced.room],
      hplaced.maxSize, hplaced.residentSize, fun hnil => ⟨hplaced.ready hnil, hplaced.alloc⟩⟩
  rw [copyDataIntoChunks_of_full h.sound malloc (by omega)]
  cases malloc with
  | false =>
    exact ⟨hacc, by simp [memoryFor, copyDataIntoNewChunk, hsame],
      by simp [roomAfter, copyDataIntoNewChunk, hplaced.room], hplaced.maxSize, hplaced.residentSize,
      fun hnil => ⟨hplaced.ready hnil, hplaced.alloc⟩⟩
  | true =>
    have hleft : (c.place data).1 = data.length - c.room := hplaced.left
    have hlength : (data.drop c.room).length = data.length - c.room := List.length_drop
    have hshort : dataChunkSize + (data.drop c.room).length < 2 ^ 31 := by
      have hblock := hfit rfl
      rw [overrunsNewChunk_eq, if_neg (by omega), hleft, hacc.sound.threshold] at hblock
      rw [hlength]
      exact lt_of_ckCeilToK (Nat.not_lt.1 (of_decide_eq_false hblock))
    simp only [memoryFor, hroom, Bool.true_eq_false, or_self, if_false, ← hlength] at hheld
    obtain ⟨haccounted, hheld', -, -, hroom'⟩ := newChunk_sizes hacc (by omega) hshort (hsame ▸ hheld)
    have hfree : (c.place data).2.freeRoom = 0 := by
      have hnone := hplaced.room
      rw [room] at hnone
      omega
    have heq := congrArg Prod.snd (copyDataIntoNewChunk_eq hacc.sound hshort)
    refine ⟨haccounted, ?_, ?_, ?_, ?_, ?_⟩
    · rw [hheld', hsame]
      simp [memoryFor, hroom]
    · rw [hroom', hfree]
      simp [roomAfter, hroom]
    · rw [heq]
      exact hplaced.maxSize
    · rw [heq]
      exact hplaced.residentSize
    · simp [heq]

private theorem ckCeilToK_le {i : Nat} (hi : i < 2 ^ 31) : ckCeilToK 1024 i ≤ max 1024 (2 * i) := by
  unfold ckCeilToK
  by_cases hsmall : i < 1024
  · rw [if_pos hsmall]
    exact Nat.le_max_left _ _
  · rw [if_neg hsmall]
    obtain ⟨k, hk, hlo, -⟩ := highBit_spec (i := i) 32 (by omega) (by omega)
    rw [hk]
    have hmod := Nat.mod_le (2 ^ k * 2) (2 ^ 32)
    omega

/-- Only what overflows the room is asked for, at most twice over: with less than `2 ^ 31` bytes
copied in all, the blocks and the new one stay countable. -/
theorem Filled.held_lt (h : c.Accounted) (hfilled : c.Filled total) (hlen : data.length ≤ 2 ^ 30)
    (htotal : total + data.length < 2 ^ 31) : c.held + memoryFor c.room true data.length < 2 ^ 32 := by
  unfold memoryFor
  split
  · exact h.held_lt
  · next hfull =>
    have hfull : c.room < data.length := by simpa using hfull
    have hmemory := ckCeilToK_le (i := dataChunkSize + (data.length - c.room))
      (by rw [dataChunkSize]; omega)
    have hheld := held_le hfilled.blocks_ge
    have hblocks := hfilled.blocks_le
    have hwritten := hfilled.written_le
    rw [dataChunkSize] at hmemory ⊢
    omega

theorem Filled.copyDataIntoChunks (h : c.Accounted) (hfilled : c.Filled total) (hlen : data.length ≤ 2 ^ 30)
    (htotal : total + data.length < 2 ^ 31) :
    (c.copyDataIntoChunks true data).2.Filled (total + data.length) := by
  have hplaced := place_placed h.sound data
  obtain ⟨hacc, hsame⟩ := place_accounted h data
  have hleft := hplaced.left
  have hwritten := hplaced.written
  have hroom := hplaced.room
  have hblocks := hfilled.blocks_le
  have hbound := hfilled.written_le
  by_cases hfits : data.length ≤ c.room
  · rw [copyDataIntoChunks_of_room h.sound true hfits]
    refine ⟨hplaced.sizes ▸ hfilled.blocks_ge, ?_, ?_⟩
    · rw [hplaced.sizes]
      simp only
      omega
    · simp only
      omega
  · -- the blocks there are have been filled to their ends
    have hlength : (data.drop c.room).length = data.length - c.room := List.length_drop
    have hshort : dataChunkSize + (data.drop c.room).length < 2 ^ 31 := by
      rw [hlength, dataChunkSize]
      omega
    have hheld := hfilled.held_lt h hlen htotal
    simp only [memoryFor, hfits, Bool.true_eq_false, or_self, if_false, ← hlength] at hheld
    obtain ⟨-, -, hperm, hwritten', hroom'⟩ := newChunk_sizes hacc (by omega) hshort (hsame ▸ hheld)
    have hbounds := ckCeilToK_bounds hshort
    rw [copyDataIntoChunks_of_full h.sound true (by omega)]
    rw [hplaced.sizes] at hperm
    refine ⟨fun size hsize => ?_, ?_, by omega⟩
    · rcases List.mem_cons.1 (hperm.mem_iff.1 hsize) with rfl | hold
      · rw [dataChunkSize] at hbounds ⊢
        omega
      · exact hfilled.blocks_ge size hold
    · rw [hperm.sum_nat, List.sum_cons]
      omega

end Copies

theorem new_accounted {maxSize residentSize : Nat} {c₀ : Chunks} (hnew : new maxSize residentSize = .ok c₀) :
    c₀.Accounted ∧ c₀.Filled 0 ∧ c₀.ckAllocSize = 0 ∧ c₀.cMaxSize = maxSize ∧
      c₀.cResidentSize = residentSize ∧ residentSize ≤ maxSize := by
  obtain ⟨hsound, -⟩ := new_sound hnew
  unfold new at hnew
  split at hnew
  · cases hnew
  · cases hnew
    refine ⟨⟨hsound, rfl, ?_, rfl⟩, filled_of_idle rfl ?_ 0, rfl, rfl, rfl, by omega⟩
    · change 0 < 2 ^ 32
      decide
    · simp [blockSizes]

end Chunks

end PinpointAgent.Cache
