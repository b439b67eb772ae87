import PinpointAgent.Cache.Chunk

/-!
# The send buffer is a byte queue

Every operation of `Chunks` is described on the pending bytes alone: copying appends, draining
takes from the front through the callback, a reset empties. `Chunks.Sound` is the representation
invariant that makes the offset arithmetic exact; the operations keep it.
-/

namespace PinpointAgent.Cache

open Framework

structure DataChunk.Sound (ck : DataChunk) : Prop where
  block_lt : ck.blockSize < 2 ^ 31
  r_le : ck.rOfs ≤ ck.blockSize
  l_le : ck.lOfs ≤ ck.rOfs
  mem_le : ck.rOfs ≤ ck.mem.length

/-- Ready blocks hold at least one byte, free blocks none. -/
structure Chunks.Sound (c : Chunks) : Prop where
  ready : ∀ ck ∈ c.readyCks, ck.Sound ∧ ck.lOfs < ck.rOfs
  free : ∀ ck ∈ c.freeCks, ck.Sound ∧ ck.rOfs = 0 ∧ 0 < ck.blockSize
  threshold : c.threshold = 1024

namespace DataChunk

theorem capacity_eq {ck : DataChunk} (h : ck.Sound) : ck.capacity = ck.blockSize - ck.rOfs :=
  wordSub_of_le h.r_le (by have := h.block_lt; omega)

private theorem length_pending {ck : DataChunk} (h : ck.Sound) :
    ck.pending.length = ck.rOfs - ck.lOfs :=
  length_slice h.mem_le

private theorem store_rOfs {ck : DataChunk} (h : ck.Sound) {bytes : List UInt8}
    (hfit : bytes.length ≤ ck.capacity) : (ck.store bytes).rOfs = ck.rOfs + bytes.length := by
  rw [capacity_eq h] at hfit
  have hblock := h.block_lt
  have hr := h.r_le
  exact wordAdd_of_lt (by omega)

private theorem store_sound {ck : DataChunk} (h : ck.Sound) {bytes : List UInt8}
    (hfit : bytes.length ≤ ck.capacity) : (ck.store bytes).Sound := by
  have hr := store_rOfs h hfit
  rw [capacity_eq h] at hfit
  have hle := h.r_le
  refine ⟨h.block_lt, ?_, ?_, ?_⟩
  · rw [hr]
    change ck.rOfs + bytes.length ≤ ck.blockSize
    omega
  · rw [hr]
    exact h.l_le.trans (Nat.le_add_right _ _)
  · rw [hr]
    exact le_length_writeAt h.mem_le

private theorem store_pending {ck : DataChunk} (h : ck.Sound) {bytes : List UInt8}
    (hfit : bytes.length ≤ ck.capacity) : (ck.store bytes).pending = ck.pending ++ bytes := by
  rw [pending, store_rOfs h hfit]
  exact slice_writeAt h.l_le h.mem_le

theorem fill_eq {ck : DataChunk} (h : ck.Sound) (data : List UInt8) :
    ck.fill data = (data.length - ck.capacity, ck.store (data.take ck.capacity)) := by
  unfold fill
  by_cases hall : ck.capacity ≥ data.length
  · rw [if_pos hall, List.take_of_length_le hall, Nat.sub_eq_zero_of_le hall]
  · rw [if_neg hall]
    by_cases hpart : ck.capacity > 0
    · rw [if_pos hpart]
    · have hzero : ck.capacity = 0 := by omega
      have hofs : wordAdd 32 ck.rOfs 0 = ck.rOfs := by
        have hblock := h.block_lt
        have hr := h.r_le
        exact wordAdd_of_lt (by omega)
      rw [if_neg hpart, hzero]
      simp [store, writeAt, hofs]

theorem fill_spec {ck : DataChunk} (h : ck.Sound) (data : List UInt8) :
    (ck.fill data).1 ≤ data.length ∧ (ck.fill data).2.Sound ∧
      (ck.fill data).2.pending ++ data.drop (data.length - (ck.fill data).1) =
        ck.pending ++ data ∧
      (ck.fill data).2.lOfs = ck.lOfs ∧
      (ck.fill data).2.rOfs = ck.rOfs + min ck.capacity data.length := by
  have hfit : (data.take ck.capacity).length ≤ ck.capacity := by
    rw [List.length_take]
    exact Nat.min_le_left _ _
  rw [fill_eq h]
  refine ⟨Nat.sub_le _ _, store_sound h hfit, ?_, rfl, ?_⟩
  · rw [store_pending h hfit]
    by_cases hle : ck.capacity ≤ data.length
    · rw [Nat.sub_sub_self hle, List.append_assoc, List.take_append_drop]
    · have hall : data.length ≤ ck.capacity := by omega
      rw [List.take_of_length_le hall, Nat.sub_eq_zero_of_le hall]
      simp
  · rw [store_rOfs h hfit, List.length_take]

end DataChunk

namespace Chunks

/-- A copy routine moved a front part of `data` behind the pending bytes of `c` and reported the
length of the rest. -/
structure Copied (c : Chunks) (data : List UInt8) (r : Nat × Chunks) : Prop where
  sound : r.2.Sound
  left_le : r.1 ≤ data.length
  bytes : r.2.pendingBytes ++ data.drop (data.length - r.1) = c.pendingBytes ++ data

private theorem Copied.none {c : Chunks} (h : c.Sound) (data : List UInt8) :
    Copied c data (data.length, c) :=
  ⟨h, Nat.le_refl _, by simp⟩

theorem copyDataIntoReadyCK_copied {c : Chunks} (h : c.Sound) (data : List UInt8) :
    Copied c data (c.copyDataIntoReadyCK data) := by
  unfold copyDataIntoReadyCK
  cases hlast : c.readyCks.getLast? with
  | none => exact Copied.none h data
  | some ck =>
      have hsplit : c.readyCks = c.readyCks.dropLast ++ [ck] :=
        (List.dropLast_append_getLast? ck hlast).symm
      have hmem : ck ∈ c.readyCks := List.mem_of_getLast? hlast
      obtain ⟨hck, hlr⟩ := h.ready ck hmem
      obtain ⟨hleft, hsound, hbytes, hl, hr⟩ := DataChunk.fill_spec hck data
      refine ⟨⟨?_, h.free, h.threshold⟩, hleft, ?_⟩
      · intro ck' hck'
        rcases List.mem_append.mp hck' with hinit | hfilled
        · exact h.ready ck' (List.dropLast_subset _ hinit)
        · rw [List.mem_singleton] at hfilled
          subst ck'
          exact ⟨hsound, by omega⟩
      · have hpending : c.pendingBytes = c.readyCks.dropLast.flatMap DataChunk.pending ++
            ck.pending := by
          rw [pendingBytes, hsplit]
          simp
        rw [hpending]
        simp only [pendingBytes, List.flatMap_append, List.flatMap_cons, List.flatMap_nil,
          List.append_nil, List.append_assoc]
        rw [hbytes]

theorem copyFreeLoop_step {ck : DataChunk} {frees : List DataChunk} {c : Chunks} {data : List UInt8}
    (h : c.Sound) (hfrees : c.freeCks = ck :: frees) (hdata : data.length > 0) :
    (c.reuseFree ck (ck.fill data).2 frees).Sound ∧
      (c.reuseFree ck (ck.fill data).2 frees).pendingBytes ++
        data.drop (data.length - (ck.fill data).1) = c.pendingBytes ++ data := by
  obtain ⟨hck, hzero, hblock⟩ := h.free ck (by rw [hfrees]; exact List.mem_cons_self)
  obtain ⟨hleft, hsound, hbytes, hl, hr⟩ := DataChunk.fill_spec hck data
  have hcap : ck.capacity = ck.blockSize := by
    rw [DataChunk.capacity_eq hck, hzero, Nat.sub_zero]
  have hl0 : ck.lOfs = 0 := by
    have := hck.l_le
    omega
  constructor
  · refine ⟨?_, ?_, h.threshold⟩
    · intro ck' hck'
      rcases List.mem_append.mp hck' with hold | hnew
      · exact h.ready ck' hold
      · rw [List.mem_singleton] at hnew
        subst ck'
        exact ⟨hsound, by omega⟩
    · intro ck' hck'
      exact h.free ck' (by rw [hfrees]; exact List.mem_cons_of_mem _ hck')
  · simp only [pendingBytes, reuseFree, List.flatMap_append, List.flatMap_cons,
      List.flatMap_nil, List.append_nil, List.append_assoc]
    rw [hbytes]
    simp [DataChunk.pending, hl0, hzero]

private theorem copyFreeLoop_copied {frees : List DataChunk} {c : Chunks} (h : c.Sound)
    (hfrees : c.freeCks = frees) (data : List UInt8) :
    Copied c data (copyFreeLoop frees c data) := by
  induction frees generalizing c data with
  | nil => exact Copied.none h data
  | cons ck frees ih =>
      unfold copyFreeLoop
      by_cases hdata : data.length > 0
      · rw [if_pos hdata]
        obtain ⟨hnext, hmoved⟩ := copyFreeLoop_step h hfrees hdata
        have hleft := (DataChunk.fill_spec
          (h.free ck (by rw [hfrees]; exact List.mem_cons_self)).1 data).1
        have hrec := ih hnext rfl (data.drop (data.length - (ck.fill data).1))
        generalize copyFreeLoop frees _ _ = r at hrec ⊢
        have hle := hrec.left_le
        have hrest := hrec.bytes
        rw [List.length_drop] at hle hrest
        refine ⟨hrec.sound, by omega, ?_⟩
        rw [List.drop_drop, hmoved] at hrest
        rw [← hrest]
        congr 2
        omega
      · rw [if_neg hdata]
        exact Copied.none h data

theorem copyDataIntoFreeCK_copied {c : Chunks} (h : c.Sound) (data : List UInt8) :
    Copied c data (c.copyDataIntoFreeCK data) :=
  copyFreeLoop_copied h rfl data

/-- What `copyDataIntoChunks` does before it asks for a new block: the last ready block and the
free blocks are filled. -/
def place (c : Chunks) (data : List UInt8) : Nat × Chunks :=
  let (ret, c) := copyDataIntoReadyCK c data
  if ret = 0 then (0, c) else copyDataIntoFreeCK c (data.drop (data.length - ret))

theorem place_copied {c : Chunks} (h : c.Sound) (data : List UInt8) : Copied c data (c.place data) := by
  have hready := copyDataIntoReadyCK_copied h data
  unfold place
  generalize c.copyDataIntoReadyCK data = r at hready ⊢
  obtain ⟨left, c₁⟩ := r
  by_cases hdone : left = 0
  · simpa [hdone] using hready
  · have hfree := copyDataIntoFreeCK_copied hready.sound (data.drop (data.length - left))
    simp only [if_neg hdone]
    generalize c₁.copyDataIntoFreeCK (data.drop (data.length - left)) = r at hfree ⊢
    have hle := hfree.left_le
    have hle₁ := hready.left_le
    have hbytes := hfree.bytes
    simp only [List.length_drop] at hle hle₁ hbytes
    refine ⟨hfree.sound, by omega, ?_⟩
    rw [List.drop_drop] at hbytes
    rw [← hready.bytes, ← hbytes]
    congr 2
    omega

theorem copyDataIntoChunks_eq {c : Chunks} (h : c.Sound) (malloc : Bool) (data : List UInt8) :
    c.copyDataIntoChunks malloc data =
      if (c.place data).1 = 0 then (0, (c.place data).2)
      else (c.place data).2.copyDataIntoNewChunk malloc (data.drop (data.length - (c.place data).1)) := by
  have hready := copyDataIntoReadyCK_copied h data
  unfold copyDataIntoChunks place
  generalize c.copyDataIntoReadyCK data = r at hready
  obtain ⟨left, c₁⟩ := r
  by_cases hdone : left = 0
  · simp [hdone]
  · have hle := (copyDataIntoFreeCK_copied hready.sound (data.drop (data.length - left))).left_le
    have hle₁ := hready.left_le
    simp only [if_neg hdone]
    generalize c₁.copyDataIntoFreeCK (data.drop (data.length - left)) = r at hle
    obtain ⟨left₂, c₂⟩ := r
    simp only [List.length_drop] at hle hle₁
    have hrest : data.length - left + (data.length - (data.length - left) - left₂) =
        data.length - left₂ := by omega
    by_cases hdone₂ : left₂ = 0
    · simp [hdone₂]
    · simp only [if_neg hdone₂, List.length_drop, List.drop_drop, hrest]
      cases malloc <;> simp [copyDataIntoNewChunk]

theorem overrunsNewChunk_eq (c : Chunks) (data : List UInt8) :
    c.overrunsNewChunk data =
      if (c.place data).1 = 0 then false
      else decide (ckCeilToK (c.place data).2.threshold ((dataChunkSize + (c.place data).1) % 2 ^ 32) <
        dataChunkSize + (c.place data).1) := by
  unfold overrunsNewChunk place
  generalize c.copyDataIntoReadyCK data = r
  obtain ⟨left, c₁⟩ := r
  by_cases hdone : left = 0
  · simp [hdone]
  · simp only [if_neg hdone]

theorem highBit_spec {i : Nat} (bits : Nat) (hi : 0 < i) (hlt : i < 2 ^ bits) :
    ∃ k, highBit bits i = 2 ^ k ∧ 2 ^ k ≤ i ∧ i < 2 ^ (k + 1) := by
  induction bits with
  | zero =>
      rw [pow_zero] at hlt
      omega
  | succ bits ih =>
      unfold highBit
      by_cases hbit : i.testBit bits
      · rw [if_pos hbit]
        exact ⟨bits, rfl, Nat.ge_two_pow_of_testBit hbit, hlt⟩
      · rw [if_neg hbit]
        apply ih
        by_contra hge
        exact hbit (Nat.testBit_of_two_pow_le_and_two_pow_add_one_gt (by omega) hlt)

/-- For every length a caller may pass, the allocation is larger than the request and a 32-bit
signed size can still be read from it. -/
theorem ckCeilToK_bounds {i : Nat} (hi : i < 2 ^ 31) :
    i < ckCeilToK 1024 i ∧ ckCeilToK 1024 i ≤ 2 ^ 31 ∧ 1024 ≤ ckCeilToK 1024 i := by
  unfold ckCeilToK
  by_cases hsmall : i < 1024
  · rw [if_pos hsmall]
    omega
  · rw [if_neg hsmall]
    obtain ⟨k, hk, hlo, hhi⟩ := highBit_spec (i := i) 32 (by omega) (by omega)
    have hk30 : k ≤ 30 := by
      by_contra hgt
      have := Nat.pow_le_pow_right (n := 2) (by decide) (show 31 ≤ k by omega)
      omega
    have hpow := Nat.pow_le_pow_right (n := 2) (by decide) hk30
    rw [pow_succ] at hhi
    rw [hk, Nat.mod_eq_of_lt (by omega)]
    omega

theorem lt_of_ckCeilToK {i : Nat} (h : i ≤ ckCeilToK 1024 (i % 2 ^ 32)) : i < 2 ^ 31 := by
  by_contra hge
  unfold ckCeilToK at h
  by_cases hsmall : i % 2 ^ 32 < 1024
  · rw [if_pos hsmall] at h
    omega
  · rw [if_neg hsmall] at h
    obtain ⟨k, hk, hlo, hhi⟩ := highBit_spec (i := i % 2 ^ 32) 32 (by omega) (by omega)
    rw [hk] at h
    by_cases hk30 : k ≤ 30
    · have hpow := Nat.pow_le_pow_right (n := 2) (by decide) hk30
      rw [pow_succ] at hhi
      omega
    · have hk31 : k = 31 := by
        by_contra hne
        have hpow := Nat.pow_le_pow_right (n := 2) (by decide) (show 32 ≤ k by omega)
        omega
      rw [hk31] at h
      omega

theorem copyDataIntoNewChunk_spec {c : Chunks} (h : c.Sound) (data : List UInt8)
    (hne : 0 < data.length) (hlen : dataChunkSize + data.length < 2 ^ 31) :
    (c.copyDataIntoNewChunk true data).1 = 0 ∧ (c.copyDataIntoNewChunk true data).2.Sound ∧
      (c.copyDataIntoNewChunk true data).2.pendingBytes = c.pendingBytes ++ data := by
  rw [dataChunkSize] at hlen
  have hsize : (dataChunkSize + data.length) % 2 ^ 32 = 12 + data.length := by
    rw [dataChunkSize]
    exact Nat.mod_eq_of_lt (by omega)
  obtain ⟨hlo, hhi, hmin⟩ := ckCeilToK_bounds (i := 12 + data.length) (by omega)
  have hblock : wordSub 32 (ckCeilToK 1024 (12 + data.length)) dataChunkSize =
      ckCeilToK 1024 (12 + data.length) - 12 :=
    wordSub_of_le (by rw [dataChunkSize]; omega) (by omega)
  unfold copyDataIntoNewChunk
  simp only [h.threshold, hsize, hblock, if_true]
  refine ⟨trivial, ⟨?_, h.free, rfl⟩, ?_⟩
  · intro ck hck
    rcases List.mem_append.mp hck with hold | hnew
    · exact h.ready ck hold
    · rw [List.mem_singleton] at hnew
      subst ck
      refine ⟨⟨?_, ?_, Nat.zero_le _, Nat.le_refl _⟩, hne⟩
      · change ckCeilToK 1024 (12 + data.length) - 12 < 2 ^ 31
        omega
      · change data.length ≤ ckCeilToK 1024 (12 + data.length) - 12
        omega
  · simp [pendingBytes, DataChunk.pending, slice_zero_length]

private theorem length_rest {data : List UInt8} {left : Nat} (h : left ≤ data.length) :
    (data.drop (data.length - left)).length = left := by
  rw [List.length_drop]
  omega

theorem copyDataIntoChunks_spec {c : Chunks} (h : c.Sound) {data : List UInt8}
    (hlen : data.length ≤ 2 ^ 30) :
    (c.copyDataIntoChunks true data).1 = 0 ∧ (c.copyDataIntoChunks true data).2.Sound ∧
      (c.copyDataIntoChunks true data).2.pendingBytes = c.pendingBytes ++ data := by
  have hplaced := place_copied h data
  have hrest := length_rest hplaced.left_le
  have hle := hplaced.left_le
  rw [copyDataIntoChunks_eq h]
  by_cases hdone : (c.place data).1 = 0
  · rw [if_pos hdone]
    exact ⟨rfl, hplaced.sound, by simpa [hdone] using hplaced.bytes⟩
  · rw [if_neg hdone]
    obtain ⟨hret, hsound, hbytes⟩ := copyDataIntoNewChunk_spec hplaced.sound
      (data.drop (data.length - (c.place data).1)) (by omega) (by rw [hrest, dataChunkSize]; omega)
    exact ⟨hret, hsound, hbytes.trans hplaced.bytes⟩

theorem copyDataIntoChunks_sound {c : Chunks} (h : c.Sound) {malloc : Bool} {data : List UInt8}
    (hfit : malloc = true → c.overrunsNewChunk data = false) :
    (c.copyDataIntoChunks malloc data).2.Sound := by
  have hplaced := place_copied h data
  have hrest := length_rest hplaced.left_le
  rw [copyDataIntoChunks_eq h]
  rw [overrunsNewChunk_eq] at hfit
  by_cases hdone : (c.place data).1 = 0
  · rw [if_pos hdone]
    exact hplaced.sound
  · rw [if_neg hdone] at hfit ⊢
    cases malloc with
    | false => exact hplaced.sound
    | true =>
      have hblock := of_decide_eq_false (hfit rfl)
      rw [hplaced.sound.threshold, Nat.not_lt] at hblock
      have hshort := lt_of_ckCeilToK hblock
      exact (copyDataIntoNewChunk_spec hplaced.sound _ (by omega) (by rw [hrest]; omega)).2.1

theorem overrunsNewChunk_of_short {c : Chunks} (h : c.Sound) {data : List UInt8}
    (hlen : dataChunkSize + data.length < 2 ^ 31) : c.overrunsNewChunk data = false := by
  have hplaced := place_copied h data
  have hle := hplaced.left_le
  rw [overrunsNewChunk_eq]
  split
  · rfl
  · have hshort : dataChunkSize + (c.place data).1 < 2 ^ 31 := by omega
    rw [hplaced.sound.threshold, Nat.mod_eq_of_lt (by omega), decide_eq_false_iff_not, Nat.not_lt]
    exact (ckCeilToK_bounds hshort).1.le

theorem reduceFreeCK_sound {c : Chunks} (h : c.Sound) :
    c.reduceFreeCK.Sound ∧ c.reduceFreeCK.readyCks = c.readyCks := by
  unfold reduceFreeCK
  cases hfree : c.freeCks with
  | nil => exact ⟨h, rfl⟩
  | cons ck frees =>
      refine ⟨⟨h.ready, ?_, h.threshold⟩, rfl⟩
      intro ck' hck'
      exact h.free ck' (by rw [hfree]; exact List.mem_cons_of_mem _ hck')

theorem waterLoop_sound {c : Chunks} (n : Nat) (h : c.Sound) :
    (waterLoop n c).Sound ∧ (waterLoop n c).readyCks = c.readyCks := by
  induction n generalizing c with
  | zero => exact ⟨h, rfl⟩
  | succ n ih =>
      unfold waterLoop
      split
      · obtain ⟨hsound, hready⟩ := ih (reduceFreeCK_sound h).1
        exact ⟨hsound, hready.trans (reduceFreeCK_sound h).2⟩
      · exact ⟨h, rfl⟩

private theorem resetLoop_sound {readies : List DataChunk} {c : Chunks} (h : c.Sound)
    (hready : c.readyCks = readies) :
    (resetLoop readies c).Sound ∧ (resetLoop readies c).readyCks = [] := by
  induction readies generalizing c with
  | nil => exact ⟨h, hready⟩
  | cons ck readies ih =>
      obtain ⟨hck, hlr⟩ := h.ready ck (by rw [hready]; exact List.mem_cons_self)
      apply ih _ rfl
      refine ⟨?_, ?_, h.threshold⟩
      · intro ck' hck'
        exact h.ready ck' (by rw [hready]; exact List.mem_cons_of_mem _ hck')
      · intro ck' hck'
        rcases List.mem_append.mp hck' with hold | hnew
        · exact h.free ck' hold
        · rw [List.mem_singleton] at hnew
          subst ck'
          have hpos := hck.r_le
          exact ⟨⟨hck.block_lt, Nat.zero_le _, Nat.le_refl _, Nat.zero_le _⟩, rfl,
            show 0 < ck.blockSize by omega⟩

theorem resetChunks_spec {c : Chunks} (h : c.Sound) :
    c.resetChunks.Sound ∧ c.resetChunks.pendingBytes = [] := by
  obtain ⟨hsound, hempty⟩ := resetLoop_sound h rfl
  obtain ⟨hsound', hready⟩ := waterLoop_sound (resetLoop c.readyCks c).freeCks.length hsound
  refine ⟨hsound', ?_⟩
  rw [pendingBytes, resetChunks, checkWaterLevel, hready, hempty]
  rfl

theorem Sound.retireReady {c : Chunks} {cur : DataChunk} {readies : List DataChunk} (h : c.Sound)
    (hready : c.readyCks = cur :: readies) : (c.retireReady cur readies).Sound := by
  obtain ⟨hcur, hlr⟩ := h.ready cur (by rw [hready]; exact List.mem_cons_self)
  have hrle := hcur.r_le
  refine ⟨fun ck hck => ?_, fun ck hck => ?_, h.threshold⟩
  · exact h.ready ck (by rw [hready]; exact List.mem_cons_of_mem _ hck)
  · rcases List.mem_cons.mp hck with rfl | hold
    · exact ⟨⟨hcur.block_lt, Nat.zero_le _, Nat.le_refl _, Nat.zero_le _⟩, rfl,
        show 0 < cur.blockSize by omega⟩
    · exact h.free ck hold

theorem Sound.advanceReady {c : Chunks} {cur : DataChunk} {readies : List DataChunk} {n : Nat} (h : c.Sound)
    (hready : c.readyCks = cur :: readies)
    (hn : (n : Int) < toSigned 32 (wordSub 32 cur.rOfs cur.lOfs)) :
    (c.advanceReady cur readies n).Sound := by
  obtain ⟨hcur, hlr⟩ := h.ready cur (by rw [hready]; exact List.mem_cons_self)
  have hblock := hcur.block_lt
  have hrle := hcur.r_le
  have hsize : toSigned 32 (wordSub 32 cur.rOfs cur.lOfs) = (cur.rOfs - cur.lOfs : Nat) := by
    rw [wordSub_of_le hcur.l_le (by omega)]
    exact toSigned_of_range (by decide) (by omega) (by omega)
  rw [hsize] at hn
  have hofs : wordAdd 32 cur.lOfs n = cur.lOfs + n := wordAdd_of_lt (by omega)
  refine ⟨?_, h.free, h.threshold⟩
  rw [Chunks.advanceReady, hofs]
  intro ck hck
  rcases List.mem_cons.mp hck with rfl | hold
  · exact ⟨⟨hblock, hrle, show cur.lOfs + n ≤ cur.rOfs by omega, hcur.mem_le⟩,
      show cur.lOfs + n < cur.rOfs by omega⟩
  · exact h.ready ck (by rw [hready]; exact List.mem_cons_of_mem _ hold)

private theorem drainLoop_drains {σ : Type} {cb : Sink σ UInt8} (hcb : cb.Honest) {n : Nat}
    (st : σ) {c : Chunks} (h : c.Sound) (hn : c.pendingBytes.length < n) :
    ∃ ret st' c', drainLoop cb n st c = some (ret, st', c') ∧ c'.Sound ∧
      Drains cb st c.pendingBytes ret st' c'.pendingBytes := by
  induction n generalizing st c with
  | zero => omega
  | succ n ih =>
      unfold drainLoop
      cases hready : c.readyCks with
      | nil =>
          obtain ⟨hsound, hsame⟩ := waterLoop_sound c.freeCks.length h
          refine ⟨0, st, c.checkWaterLevel, rfl, hsound, ?_⟩
          rw [pendingBytes, pendingBytes, checkWaterLevel, hsame, hready]
          exact Drains.empty st
      | cons cur readies =>
          obtain ⟨hcur, hlr⟩ := h.ready cur (by rw [hready]; exact List.mem_cons_self)
          have hlen := DataChunk.length_pending hcur
          have hblock := hcur.block_lt
          have hrle := hcur.r_le
          have hpending : c.pendingBytes = cur.pending ++ readies.flatMap DataChunk.pending := by
            rw [pendingBytes, hready]
            rfl
          have hpre : cur.pending <+: c.pendingBytes := ⟨_, hpending.symm⟩
          have hprelen := hpre.length_le
          have hne : cur.pending ≠ [] := by
            intro hnil
            rw [hnil, List.length_nil] at hlen
            omega
          have hsize : toSigned 32 (wordSub 32 cur.rOfs cur.lOfs) = cur.pending.length := by
            rw [wordSub_of_le hcur.l_le (by omega), hlen]
            exact toSigned_of_range (by decide) (by omega) (by omega)
          have hle := hcb st cur.pending
          cases hans : cb st cur.pending with
          | mk ret st₁ =>
              have hret₁ : (cb st cur.pending).1 = ret := by rw [hans]
              have hst₁ : (cb st cur.pending).2 = st₁ := by rw [hans]
              rw [hret₁] at hle
              simp only [hsize, hans]
              by_cases hstop : ret ≤ 0
              · rw [if_pos hstop]
                refine ⟨ret, st₁, c, rfl, h, ?_⟩
                have hround : Drains cb st c.pendingBytes _ _ c.pendingBytes :=
                  Drains.refused hne hpre (by rw [hret₁]; exact hstop)
                rwa [hret₁, hst₁] at hround
              · rw [if_neg hstop]
                have htook : ∀ (ret' : Int) (st' : σ) (c₂ c' : Chunks),
                    c₂.pendingBytes = c.pendingBytes.drop ret.toNat →
                    Drains cb st₁ c₂.pendingBytes ret' st' c'.pendingBytes →
                    Drains cb st c.pendingBytes ret' st' c'.pendingBytes := by
                  intro ret' st' c₂ c' hdrop hrest
                  apply Drains.took hne hpre (by rw [hret₁]; omega) (by rw [hret₁]; exact hle)
                  rw [hret₁, hst₁, ← hdrop]
                  exact hrest
                by_cases hall : ret = cur.pending.length
                · rw [if_pos hall]
                  have hnext := h.retireReady hready
                  have hdrop : (c.retireReady cur readies).pendingBytes =
                      c.pendingBytes.drop ret.toNat := by
                    rw [hall, hpending, Int.toNat_natCast, List.drop_left]
                    rfl
                  obtain ⟨ret', st', c', hrun, hsound', hdrains⟩ := ih st₁ hnext (by
                    rw [hdrop, List.length_drop]
                    omega)
                  exact ⟨ret', st', c', hrun, hsound', htook ret' st' _ c' hdrop hdrains⟩
                · rw [if_neg hall, if_pos (by omega)]
                  have hofs : wordAdd 32 cur.lOfs ret.toNat = cur.lOfs + ret.toNat :=
                    wordAdd_of_lt (by omega)
                  have hnext : (c.advanceReady cur readies ret.toNat).Sound :=
                    h.advanceReady hready (by rw [hsize]; omega)
                  have hdrop : (c.advanceReady cur readies ret.toNat).pendingBytes =
                      c.pendingBytes.drop ret.toNat := by
                    rw [hpending, List.drop_append_of_le_length (by omega), DataChunk.pending,
                      slice_drop, ← hofs]
                    rfl
                  obtain ⟨ret', st', c', hrun, hsound', hdrains⟩ := ih st₁ hnext (by
                    rw [hdrop, List.length_drop]
                    omega)
                  exact ⟨ret', st', c', hrun, hsound', htook ret' st' _ c' hdrop hdrains⟩

theorem drainOutWithPipe_drains {σ : Type} {cb : Sink σ UInt8} (hcb : cb.Honest) (st : σ)
    {c : Chunks} (h : c.Sound) :
    ∃ ret st' c', c.drainOutWithPipe cb st = some (ret, st', c') ∧ c'.Sound ∧
      Drains cb st c.pendingBytes ret st' c'.pendingBytes := by
  unfold drainOutWithPipe
  by_cases hempty : c.readyCks = []
  · rw [if_pos hempty]
    refine ⟨0, st, c, rfl, h, ?_⟩
    rw [pendingBytes, hempty]
    exact Drains.empty st
  · rw [if_neg hempty]
    exact drainLoop_drains hcb st h (Nat.lt_succ_self _)

theorem new_sound {maxSize residentSize : Nat} {c : Chunks} (h : new maxSize residentSize = .ok c) :
    c.Sound ∧ c.pendingBytes = [] := by
  unfold new at h
  split at h
  · cases h
  · cases h
    exact ⟨⟨by simp, by simp, rfl⟩, rfl⟩

end Chunks

/-! ## Runs of the buffer -/

/-- One call on the buffer; the callbacks of all drains share the state of type `σ`. -/
inductive ChunkOp (σ : Type) where
  | copy (data : List UInt8)
  | drain (cb : Sink σ UInt8)
  | reset

/-- What callers may do: lengths up to `2 ^ 30`, callbacks that take no more than they are given. -/
def ChunkOp.Allowed {σ : Type} : ChunkOp σ → Prop
  | .copy data => data.length ≤ 2 ^ 30
  | .drain cb => cb.Honest
  | .reset => True

/-- The buffer with a record of the bytes copied in and the bytes the callbacks accepted since the
last reset. -/
structure ChunkRun (σ : Type) where
  chunks : Chunks
  pipe : σ
  accepted : List UInt8
  copied : List UInt8

namespace ChunkRun

variable {σ : Type}

def step (r : ChunkRun σ) : ChunkOp σ → Option (ChunkRun σ)
  | .copy data =>
      some { r with
        chunks := (r.chunks.copyDataIntoChunks true data).2
        copied := r.copied ++ data }
  | .drain cb =>
      match r.chunks.drainOutWithPipe cb.tee (r.pipe, r.accepted) with
      | none => none
      | some (_, (pipe, accepted), chunks) => some { r with chunks, pipe, accepted }
  | .reset => some { r with chunks := r.chunks.resetChunks, accepted := [], copied := [] }

def run (r : ChunkRun σ) (ops : List (ChunkOp σ)) : Option (ChunkRun σ) := ops.foldlM step r

structure Conserved (r : ChunkRun σ) : Prop where
  sound : r.chunks.Sound
  bytes : r.accepted ++ r.chunks.pendingBytes = r.copied

private theorem step_conserved {r : ChunkRun σ} (h : r.Conserved) {op : ChunkOp σ} (hop : op.Allowed) :
    ∃ r', r.step op = some r' ∧ r'.Conserved := by
  cases op with
  | copy data =>
      obtain ⟨-, hsound, hbytes⟩ := Chunks.copyDataIntoChunks_spec h.sound hop
      refine ⟨_, rfl, hsound, ?_⟩
      rw [hbytes, ← List.append_assoc, h.bytes]
  | drain cb =>
      have hhonest : cb.tee.Honest := Sink.Honest.tee hop
      obtain ⟨ret, st, c, hrun, hsound, hdrains⟩ :=
        Chunks.drainOutWithPipe_drains hhonest (r.pipe, r.accepted) h.sound
      refine ⟨{ r with chunks := c, pipe := st.1, accepted := st.2 }, ?_, hsound, ?_⟩
      · simp only [step, hrun]
      · exact hdrains.tee_conserves.trans h.bytes
  | reset =>
      obtain ⟨hsound, hempty⟩ := Chunks.resetChunks_spec h.sound
      exact ⟨_, rfl, hsound, by simpa using hempty⟩

private theorem run_conserved {r : ChunkRun σ} (h : r.Conserved) {ops : List (ChunkOp σ)}
    (hops : ∀ op ∈ ops, op.Allowed) : ∃ r', r.run ops = some r' ∧ r'.Conserved := by
  induction ops generalizing r with
  | nil => exact ⟨r, rfl, h⟩
  | cons op ops ih =>
      obtain ⟨r₁, hstep, h₁⟩ := step_conserved h (hops op List.mem_cons_self)
      obtain ⟨r', hrun, h'⟩ := ih h₁ (fun op' hop' => hops op' (List.mem_cons_of_mem _ hop'))
      refine ⟨r', ?_, h'⟩
      rw [run, List.foldlM_cons, hstep]
      exact hrun

end ChunkRun

/-- `Chunks` is a byte FIFO: in every run of copies, drains and resets every drain ends, and the
bytes accepted since the last reset followed by the pending ones are the bytes copied since. -/
theorem chunks_byte_fifo {σ : Type} {maxSize residentSize : Nat} (hsize : residentSize ≤ maxSize)
    (pipe : σ) {ops : List (ChunkOp σ)} (hops : ∀ op ∈ ops, op.Allowed) :
    ∃ c r, Chunks.new maxSize residentSize = .ok c ∧
      ChunkRun.run ⟨c, pipe, [], []⟩ ops = some r ∧
      r.accepted ++ r.chunks.pendingBytes = r.copied := by
  have hnew : ∃ c, Chunks.new maxSize residentSize = .ok c := by
    unfold Chunks.new
    rw [if_neg (by omega)]
    exact ⟨_, rfl⟩
  obtain ⟨c, hc⟩ := hnew
  obtain ⟨hsound, hempty⟩ := Chunks.new_sound hc
  obtain ⟨r, hrun, hr⟩ := ChunkRun.run_conserved (r := ⟨c, pipe, [], []⟩)
    ⟨hsound, by simpa using hempty⟩ hops
  exact ⟨c, r, hc, hrun, hr.bytes⟩

/-- The pattern of the unit test at a small size: two copies, a sink that halves what it is given
and then refuses, a third copy. -/
theorem chunks_byte_fifo_halving :
    (∀ op ∈ [ChunkOp.copy [1, 2, 3], .copy [4],
        .drain fun (st : Nat) piece => (if st = 0 then piece.length / 2 else 0, st + 1),
        .copy [5]], op.Allowed) ∧
      ∃ c r, Chunks.new 4096 128 = .ok c ∧
        ChunkRun.run ⟨c, 0, [], []⟩ [ChunkOp.copy [1, 2, 3], .copy [4],
          .drain fun (st : Nat) piece => (if st = 0 then piece.length / 2 else 0, st + 1),
          .copy [5]] = some r ∧
        r.accepted ++ r.chunks.pendingBytes = r.copied := by
  have hallowed : ∀ op ∈ [ChunkOp.copy [1, 2, 3], .copy [4],
      .drain fun (st : Nat) piece => (if st = 0 then piece.length / 2 else 0, st + 1),
      .copy [5]], op.Allowed := by
    intro op hop
    simp only [List.mem_cons, List.not_mem_nil, or_false] at hop
    rcases hop with rfl | rfl | rfl | rfl
    · simp [ChunkOp.Allowed]
    · simp [ChunkOp.Allowed]
    · intro st piece
      simp only
      split <;> omega
    · simp [ChunkOp.Allowed]
  exact ⟨hallowed, chunks_byte_fifo (by decide) 0 hallowed⟩

end PinpointAgent.Cache
