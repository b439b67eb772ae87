import PinpointAgent.Cache.Accounting

/-!
# The send buffer with its arithmetic checked

The operations of the buffer once more, with a fault for each 32-bit subtraction that would wrap and
for each `memcpy` that would run past its block. While the counters are exact none of them faults,
and the results are those of the unchecked operations.
-/

namespace PinpointAgent.Cache

open Framework

inductive Fault where
  | wraps
  | overruns
deriving DecidableEq, Repr

def subChecked (a b : Nat) : Except Fault Nat :=
  if b ≤ a then .ok (wordSub 32 a b) else .error .wraps

private theorem subChecked_of_le {a b : Nat} (h : b ≤ a) : subChecked a b = .ok (wordSub 32 a b) := if_pos h

namespace DataChunk

def storeChecked (ck : DataChunk) (bytes : List UInt8) : Except Fault DataChunk :=
  if ck.rOfs + bytes.length ≤ ck.blockSize then .ok (ck.store bytes) else .error .overruns

def fillChecked (ck : DataChunk) (data : List UInt8) : Except Fault (Nat × DataChunk) := do
  let capacity ← subChecked ck.blockSize ck.rOfs
  if capacity ≥ data.length then
    let ck ← ck.storeChecked data
    return (0, ck)
  else if capacity > 0 then
    let ck ← ck.storeChecked (data.take capacity)
    let left ← subChecked data.length capacity
    return (left, ck)
  else return (data.length, ck)

end DataChunk

namespace Chunks

def copyDataIntoReadyCKChecked (c : Chunks) (data : List UInt8) : Except Fault (Nat × Chunks) :=
  match c.readyCks.getLast? with
  | none => .ok (data.length, c)
  | some ck => do
    let r ← ck.fillChecked data
    return (r.1, { c with readyCks := c.readyCks.dropLast ++ [r.2] })

def copyFreeLoopChecked : List DataChunk → Chunks → List UInt8 → Except Fault (Nat × Chunks)
  | [], c, data => .ok (data.length, c)
  | ck :: frees, c, data =>
    if data.length > 0 then do
      let r ← ck.fillChecked data
      let capacity ← subChecked c.ckFreeCkCapacity ck.blockSize
      copyFreeLoopChecked frees
        { c with
          ckFreeCkCapacity := capacity
          freeCks := frees
          readyCks := c.readyCks ++ [r.2] }
        (data.drop (data.length - r.1))
    else .ok (data.length, c)

def copyDataIntoNewChunkChecked (malloc : Bool) (c : Chunks) (data : List UInt8) :
    Except Fault (Int × Chunks) :=
  let memSize := ckCeilToK c.threshold ((dataChunkSize + data.length) % 2 ^ 32)
  if malloc then do
    let blockSize ← subChecked memSize dataChunkSize
    if blockSize < data.length then .error .overruns
    else return (0, { c with
      readyCks := c.readyCks ++ [⟨blockSize, 0, data.length, data⟩]
      ckAllocSize := wordAdd 32 c.ckAllocSize memSize })
  else .ok (-1, c)

def copyDataIntoChunksChecked (malloc : Bool) (c : Chunks) (data : List UInt8) :
    Except Fault (Int × Chunks) := do
  let r ← c.copyDataIntoReadyCKChecked data
  if r.1 = 0 then return (0, r.2)
  else
    let done ← subChecked data.length r.1
    let data := data.drop done
    let r ← copyFreeLoopChecked r.2.freeCks r.2 data
    if r.1 = 0 then return (0, r.2)
    else
      let done ← subChecked data.length r.1
      copyDataIntoNewChunkChecked malloc r.2 (data.drop done)

def reduceFreeCKChecked (c : Chunks) : Except Fault Chunks :=
  match c.freeCks with
  | [] => .ok c
  | ck :: frees => do
    let allocSize ← subChecked c.ckAllocSize (ck.blockSize + dataChunkSize)
    let capacity ← subChecked c.ckFreeCkCapacity ck.blockSize
    return { c with freeCks := frees, ckAllocSize := allocSize, ckFreeCkCapacity := capacity }

def waterLoopChecked : Nat → Chunks → Except Fault Chunks
  | 0, c => .ok c
  | n + 1, c =>
    if c.cResidentSize < c.ckAllocSize ∧ c.freeCks ≠ [] then do
      let c ← c.reduceFreeCKChecked
      waterLoopChecked n c
    else .ok c

def drainLoopChecked {σ : Type} (cb : Sink σ UInt8) :
    Nat → σ → Chunks → Except Fault (Option (Int × σ × Chunks))
  | 0, _, _ => .ok none
  | n + 1, st, c =>
    match c.readyCks with
    | [] => do
      let c ← waterLoopChecked c.freeCks.length c
      return some (0, st, c)
    | cur :: readies => do
      let curSize ← subChecked cur.rOfs cur.lOfs
      let (ret, st) := cb st cur.pending
      if ret ≤ 0 then return some (ret, st, c)
      else if ret = toSigned 32 curSize then drainLoopChecked cb n st (c.retireReady cur readies)
      else if ret < toSigned 32 curSize then
        drainLoopChecked cb n st (c.advanceReady cur readies ret.toNat)
      else drainLoopChecked cb n st c

def resetChunksChecked (c : Chunks) : Except Fault Chunks :=
  let c := resetLoop c.readyCks c
  waterLoopChecked c.freeCks.length c

end Chunks

def ChunkCall.stepChecked {σ : Type} (s : Chunks × σ) : ChunkCall σ → Except Fault (Option (Chunks × σ))
  | .copy malloc data => do
    let r ← s.1.copyDataIntoChunksChecked malloc data
    return some (r.2, s.2)
  | .drain cb turns =>
    if s.1.readyCks = [] then .ok (some s)
    else do
      let r ← Chunks.drainLoopChecked cb turns s.2 s.1
      return r.map fun r => (r.2.2, r.2.1)
  | .reset => do
    let c ← s.1.resetChunksChecked
    return some (c, s.2)

def execChecked {σ : Type} (s : Chunks × σ) : List (ChunkCall σ) → Except Fault (Option (Chunks × σ))
  | [] => .ok (some s)
  | call :: calls => do
    match ← call.stepChecked s with
    | none => return none
    | some t => execChecked t calls

private theorem ok_bind {α β : Type} (a : α) (f : α → Except Fault β) : ((.ok a : Except Fault α) >>= f) = f a :=
  rfl

private theorem pure_eq_ok {α : Type} (a : α) : (pure a : Except Fault α) = .ok a := rfl

private theorem DataChunk.fillChecked_eq {ck : DataChunk} (h : ck.Sound) {data : List UInt8}
    (hlen : data.length < 2 ^ 32) : ck.fillChecked data = .ok (ck.fill data) := by
  have hle := h.r_le
  have hcapacity := capacity_eq h
  have hsub : subChecked ck.blockSize ck.rOfs = .ok ck.capacity := subChecked_of_le hle
  simp only [fillChecked, fill, hsub, ok_bind]
  by_cases hall : ck.capacity ≥ data.length
  · rw [if_pos hall, if_pos hall, storeChecked, if_pos (by omega)]
    rfl
  · rw [if_neg hall, if_neg hall]
    by_cases hsome : ck.capacity > 0
    · have htake : (data.take ck.capacity).length = ck.capacity := List.length_take_of_le (by omega)
      rw [if_pos hsome, if_pos hsome, storeChecked, if_pos (by omega), subChecked_of_le (by omega),
        wordSub_of_le (by omega) hlen]
      rfl
    · rw [if_neg hsome, if_neg hsome]
      rfl

namespace Chunks

section Unfaulted

variable {c : Chunks} {data : List UInt8} {malloc : Bool}

private theorem copyDataIntoReadyCKChecked_eq (h : c.Sound) (hlen : data.length < 2 ^ 32) :
    c.copyDataIntoReadyCKChecked data = .ok (c.copyDataIntoReadyCK data) := by
  unfold copyDataIntoReadyCKChecked copyDataIntoReadyCK
  cases hlast : c.readyCks.getLast? with
  | none => rfl
  | some ck =>
    have hck := (h.ready ck (List.mem_of_getLast? hlast)).1
    simp only [DataChunk.fillChecked_eq hck hlen, ok_bind, pure_eq_ok]

private theorem copyFreeLoopChecked_eq {frees : List DataChunk} (h : c.Sound) (hfrees : c.freeCks = frees)
    (hcapacity : c.ckFreeCkCapacity = c.freeRoom) (hlt : c.freeRoom < 2 ^ 32) (hlen : data.length < 2 ^ 32) :
    copyFreeLoopChecked frees c data = .ok (copyFreeLoop frees c data) := by
  induction frees generalizing c data with
  | nil => rfl
  | cons ck frees ih =>
    unfold copyFreeLoopChecked copyFreeLoop
    by_cases hdata : data.length > 0
    · rw [if_pos hdata, if_pos hdata]
      obtain ⟨hck, -⟩ := h.free ck (by rw [hfrees]; exact List.mem_cons_self)
      obtain ⟨hleft, -, hfree, -, -, hcounter⟩ := reuseFree_placed h hfrees data
      have hnext := (copyFreeLoop_step h hfrees hdata).1
      rw [DataChunk.fillChecked_eq hck hlen, ok_bind, subChecked_of_le (by omega), ok_bind]
      apply ih hnext rfl (hcounter hcapacity hlt) (by omega)
      rw [List.length_drop]
      omega
    · rw [if_neg hdata, if_neg hdata]

private theorem copyDataIntoNewChunkChecked_eq (h : c.Sound) (hlen : dataChunkSize + data.length < 2 ^ 31) :
    copyDataIntoNewChunkChecked malloc c data = .ok (c.copyDataIntoNewChunk malloc data) := by
  have hsize : (dataChunkSize + data.length) % 2 ^ 32 = dataChunkSize + data.length :=
    Nat.mod_eq_of_lt (by omega)
  obtain ⟨hlo, hhi, -⟩ := ckCeilToK_bounds hlen
  have hsub := wordSub_of_le (w := 32) (show dataChunkSize ≤ ckCeilToK 1024 (dataChunkSize + data.length) by omega)
    (by omega)
  simp only [copyDataIntoNewChunkChecked, copyDataIntoNewChunk, h.threshold, hsize]
  cases malloc with
  | false => rfl
  | true =>
    rw [if_pos rfl, if_pos rfl, subChecked_of_le (by omega), ok_bind, if_neg (by omega)]
    rfl

private theorem copyDataIntoChunksChecked_eq (h : c.Accounted) (hlen : data.length ≤ 2 ^ 30) :
    copyDataIntoChunksChecked malloc c data = .ok (c.copyDataIntoChunks malloc data) := by
  have hready := copyDataIntoReadyCK_copied h.sound data
  obtain ⟨-, hfrees, hcounter⟩ := copyDataIntoReadyCK_placed h.sound data
  unfold copyDataIntoChunksChecked copyDataIntoChunks
  rw [copyDataIntoReadyCKChecked_eq h.sound (by omega), ok_bind]
  generalize c.copyDataIntoReadyCK data = r at hready hfrees hcounter ⊢
  obtain ⟨left, c₁⟩ := r
  simp only at hfrees hcounter ⊢
  have hle : left ≤ data.length := hready.left_le
  by_cases hdone : left = 0
  · rw [if_pos hdone, if_pos hdone]
    rfl
  rw [if_neg hdone, if_neg hdone, subChecked_of_le hle, wordSub_of_le hle (by omega), ok_bind]
  have hroom : c₁.freeRoom = c.freeRoom := by rw [freeRoom, hfrees, freeRoom]
  have hlt : c₁.freeRoom < 2 ^ 32 := by
    rw [hroom]
    exact lt_of_le_of_lt (freeRoom_le_held c) h.held_lt
  have hsound : c₁.Sound := hready.sound
  have hfree := copyDataIntoFreeCK_copied hsound (data.drop (data.length - left))
  have hlength : (data.drop (data.length - left)).length = left := by
    rw [List.length_drop]
    omega
  generalize data.drop (data.length - left) = rest at hfree hlength ⊢
  rw [copyFreeLoopChecked_eq hsound rfl (by rw [hcounter, hroom, h.freeCapacity]) hlt (by omega), ok_bind,
    ← copyDataIntoFreeCK]
  generalize c₁.copyDataIntoFreeCK rest = r at hfree ⊢
  obtain ⟨left₂, c₂⟩ := r
  simp only
  have hle₂ : left₂ ≤ rest.length := hfree.left_le
  by_cases hdone₂ : left₂ = 0
  · rw [if_pos hdone₂, if_pos hdone₂]
    rfl
  rw [if_neg hdone₂, if_neg hdone₂, subChecked_of_le hle₂, wordSub_of_le hle₂ (by omega), ok_bind,
    copyDataIntoNewChunkChecked_eq hfree.sound (by rw [List.length_drop, dataChunkSize]; omega)]
  cases malloc <;> rfl

private theorem waterLoopChecked_eq (h : c.Accounted) (turns : Nat) :
    waterLoopChecked turns c = .ok (waterLoop turns c) := by
  induction turns generalizing c with
  | zero => rfl
  | succ turns ih =>
    unfold waterLoopChecked waterLoop
    split
    · have hreduce : c.reduceFreeCKChecked = .ok c.reduceFreeCK := by
        have halloc := h.alloc
        have hcapacity := h.freeCapacity
        unfold reduceFreeCKChecked reduceFreeCK
        cases hfree : c.freeCks with
        | nil => rfl
        | cons ck frees =>
          simp only [held, hfree, List.map_append, List.map_cons, List.sum_append, List.sum_cons] at halloc
          simp only [freeRoom, hfree, List.map_cons, List.sum_cons] at hcapacity
          simp only [subChecked_of_le (show ck.blockSize + dataChunkSize ≤ c.ckAllocSize by omega),
            subChecked_of_le (show ck.blockSize ≤ c.ckFreeCkCapacity by omega), ok_bind, pure_eq_ok]
      rw [hreduce, ok_bind]
      exact ih h.reduceFreeCK
    · rfl

private theorem drainLoopChecked_eq {σ : Type} (cb : Sink σ UInt8) (h : c.Accounted) (turns : Nat) (st : σ) :
    drainLoopChecked cb turns st c = .ok (drainLoop cb turns st c) := by
  induction turns generalizing st c with
  | zero => rfl
  | succ turns ih =>
    unfold drainLoopChecked drainLoop
    cases hready : c.readyCks with
    | nil =>
      simp only [waterLoopChecked_eq h, ok_bind, pure_eq_ok]
      rfl
    | cons cur readies =>
      obtain ⟨hcur, -⟩ := h.sound.ready cur (by rw [hready]; exact List.mem_cons_self)
      simp only [subChecked_of_le hcur.l_le, ok_bind, pure_eq_ok]
      split
      · rfl
      · next hpos =>
        split
        · exact ih (h.retireReady hready) _
        · split
          · next hless =>
            apply ih (h.advanceReady hready _)
            rwa [Int.toNat_of_nonneg (by omega)]
          · exact ih h _

private theorem resetChunksChecked_eq (h : c.Accounted) : c.resetChunksChecked = .ok c.resetChunks :=
  waterLoopChecked_eq (resetLoop_accounted h rfl).1 _

end Unfaulted

/-- The counters are exact and the offsets in order; a buffer with nothing ready holds no more than
its resident size. -/
structure InOrder (residentSize : Nat) (c : Chunks) : Prop where
  alloc : c.ckAllocSize = ((c.readyCks ++ c.freeCks).map fun ck => ck.blockSize + dataChunkSize).sum
  freeCapacity : c.ckFreeCkCapacity = (c.freeCks.map DataChunk.blockSize).sum
  ready : ∀ ck ∈ c.readyCks, ck.lOfs < ck.rOfs ∧ ck.rOfs ≤ ck.blockSize
  free : ∀ ck ∈ c.freeCks, ck.lOfs = 0 ∧ ck.rOfs = 0
  resident : c.readyCks = [] → c.ckAllocSize ≤ residentSize
  reset : c.resetChunks.ckAllocSize ≤ residentSize

structure Ledger (residentSize total : Nat) (c : Chunks) : Prop where
  accounted : c.Accounted
  filled : c.Filled total
  size : c.cResidentSize = residentSize
  resident : c.readyCks = [] → c.ckAllocSize ≤ residentSize

private theorem Settled.ledger {residentSize total : Nat} {c c' : Chunks} (hsettled : Settled c c')
    (h : Ledger residentSize total c) : Ledger residentSize total c' := by
  have hsize : c'.cResidentSize = residentSize := hsettled.residentSize.trans h.size
  exact ⟨hsettled.accounted, hsettled.filled total h.filled, hsize,
    fun hready => hsize ▸ hsettled.resident hready⟩

private theorem Ledger.inOrder {residentSize total : Nat} {c : Chunks} (h : Ledger residentSize total c) :
    c.InOrder residentSize := by
  obtain ⟨hreset, hempty⟩ := h.accounted.resetChunks
  refine ⟨h.accounted.alloc, h.accounted.freeCapacity, ?_, ?_, h.resident, (hreset.ledger h).resident hempty⟩
  · intro ck hck
    obtain ⟨hsound, hlt⟩ := h.accounted.sound.ready ck hck
    exact ⟨hlt, hsound.r_le⟩
  · intro ck hck
    obtain ⟨hsound, hzero, -⟩ := h.accounted.sound.free ck hck
    exact ⟨Nat.le_zero.1 (hzero ▸ hsound.l_le), hzero⟩

end Chunks

namespace ChunkCall

def length {σ : Type} : ChunkCall σ → Nat
  | .copy _ data => data.length
  | .drain .. | .reset => 0

def Modest {σ : Type} : ChunkCall σ → Prop
  | .copy malloc data => malloc = true ∧ data.length ≤ 2 ^ 30
  | .drain .. | .reset => True

variable {σ : Type} {s t : Chunks × σ} {residentSize total : Nat} {call : ChunkCall σ}

private theorem overruns_of_modest (h : s.1.Accounted) {data : List UInt8} (hlen : data.length ≤ 2 ^ 30) :
    s.1.overrunsNewChunk data = false :=
  Chunks.overrunsNewChunk_of_short h.sound (by rw [dataChunkSize]; omega)

private theorem stepChecked_eq (h : s.1.Accounted) (hcall : call.Modest) :
    call.stepChecked s = .ok (call.step s) := by
  cases call with
  | copy malloc data =>
    obtain ⟨-, hlen⟩ := hcall
    have hfit := overruns_of_modest h hlen
    simp only [stepChecked, step, Chunks.copyDataIntoChunksChecked_eq h hlen, ok_bind, pure_eq_ok]
    rw [if_pos ⟨by omega, fun _ => hfit⟩]
  | drain cb turns =>
    simp only [stepChecked, step, Chunks.drainLoopChecked_eq cb h, ok_bind, pure_eq_ok]
    split <;> rfl
  | reset =>
    simp only [stepChecked, step, Chunks.resetChunksChecked_eq h, ok_bind, pure_eq_ok]

private theorem step_ledger (h : s.1.Ledger residentSize total) (hcall : call.Modest)
    (htotal : total + call.length < 2 ^ 31) (hstep : call.step s = some t) :
    t.1.Ledger residentSize (total + call.length) := by
  cases call with
  | copy malloc data =>
    obtain ⟨rfl, hlen⟩ := hcall
    have hfit := overruns_of_modest h.accounted hlen
    rw [step, if_pos ⟨by omega, fun _ => hfit⟩] at hstep
    cases hstep
    have hgrown := Chunks.copyDataIntoChunks_grown h.accounted (fun _ => hfit)
      (h.filled.held_lt h.accounted hlen htotal)
    refine ⟨hgrown.accounted, h.filled.copyDataIntoChunks h.accounted hlen htotal,
      hgrown.residentSize.trans h.size, ?_⟩
    intro hnil
    obtain ⟨hready, halloc⟩ := hgrown.ready hnil
    exact halloc ▸ h.resident hready
  | drain cb turns =>
    simp only [step] at hstep
    split at hstep
    · cases hstep
      exact h
    · obtain ⟨⟨ret, st', c'⟩, hrun, rfl⟩ := Option.map_eq_some_iff.1 hstep
      exact (h.accounted.drainLoop hrun).ledger h
  | reset =>
    cases hstep
    exact h.accounted.resetChunks.1.ledger h

private theorem exec_ledger {calls : List (ChunkCall σ)} (h : s.1.Ledger residentSize total)
    (hmodest : ∀ call ∈ calls, call.Modest) (htotal : total + (calls.map length).sum < 2 ^ 31) :
    execChecked s calls = .ok (exec step s calls) ∧
      ∀ t, exec step s calls = some t → t.1.InOrder residentSize := by
  induction calls generalizing s total with
  | nil =>
    refine ⟨rfl, fun t hrun => ?_⟩
    cases hrun
    exact h.inOrder
  | cons call calls ih =>
    have hcall := hmodest call List.mem_cons_self
    simp only [List.map_cons, List.sum_cons] at htotal
    rw [execChecked, exec, stepChecked_eq h.accounted hcall, ok_bind]
    cases hstep : call.step s with
    | none => exact ⟨rfl, nofun⟩
    | some u =>
      exact ih (step_ledger h hcall (by omega) hstep)
        (fun other hother => hmodest other (List.mem_cons_of_mem _ hother)) (by omega)

end ChunkCall

/-- Over every run with copies of at most `2 ^ 30` bytes, less than `2 ^ 31` in all, no subtraction
wraps and no `memcpy` leaves its block, and every state reached is in order. -/
theorem chunk_accounting {σ : Type} {maxSize residentSize : Nat} {c₀ : Chunks}
    (hnew : Chunks.new maxSize residentSize = .ok c₀) (st : σ) {calls : List (ChunkCall σ)}
    (hmodest : ∀ call ∈ calls, call.Modest) (htotal : (calls.map ChunkCall.length).sum < 2 ^ 31) :
    execChecked (c₀, st) calls = .ok (exec ChunkCall.step (c₀, st) calls) ∧
      ∀ t, exec ChunkCall.step (c₀, st) calls = some t → t.1.InOrder residentSize := by
  obtain ⟨haccounted, hfilled, hzero, -, hsize, -⟩ := Chunks.new_accounted hnew
  have hledger : c₀.Ledger residentSize 0 :=
    ⟨haccounted, hfilled, hsize, fun _ => hzero ▸ Nat.zero_le _⟩
  exact ChunkCall.exec_ledger hledger hmodest (by omega)

/-- A copy of three bytes, a drain that takes two of them and one that takes the last, a reset. -/
def threeByteCalls : List (ChunkCall Nat) :=
  let taking : Sink Nat UInt8 := fun turn bytes => (if turn % 2 = 0 then min 2 bytes.length else 0, turn + 1)
  [.copy true [1, 2, 3], .drain taking 4, .drain taking 4, .drain taking 4, .reset]

theorem chunk_accounting_three_bytes :
    (exec ChunkCall.step (⟨[], [], 0, 4096, 1024, 0, 0⟩, 0) threeByteCalls).isSome = true ∧
    execChecked (⟨[], [], 0, 4096, 1024, 0, 0⟩, 0) threeByteCalls =
        .ok (exec ChunkCall.step (⟨[], [], 0, 4096, 1024, 0, 0⟩, 0) threeByteCalls) ∧
      ∀ t, exec ChunkCall.step (⟨[], [], 0, 4096, 1024, 0, 0⟩, 0) threeByteCalls = some t → t.1.InOrder 0 :=
  ⟨by decide +kernel, chunk_accounting (show Chunks.new 4096 0 = .ok _ from rfl) 0
    (by simp [threeByteCalls, ChunkCall.Modest]) (by simp [threeByteCalls, ChunkCall.length])⟩

end PinpointAgent.Cache
