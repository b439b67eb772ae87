import PinpointAgent.Framework.BytePipe
import PinpointAgent.Framework.Word

/-!
# The chunked send buffer

`Chunks` of `Cache/Chunk.cpp`: bytes wait in the `[l_ofs, r_ofs)` ranges of `ready_cks`, drained
blocks are kept for reuse in `free_cks`. The 32-bit counters wrap as the source's do. A block's
memory is the list of the bytes written behind its header since it was allocated; stale bytes
beyond `r_ofs` stay in it, as they do in the source.

A function whose name ends in `Loop` is the loop of the source function it is named after. Copying
fills the last ready block, then the free blocks, then a new one, for which `malloc` says whether
the allocation succeeds.
-/

namespace PinpointAgent.Cache

open Framework

def dataChunkSize : Nat := 12

structure DataChunk where
  blockSize : Nat
  lOfs : Nat
  rOfs : Nat
  mem : List UInt8
deriving DecidableEq, Repr

namespace DataChunk

def pending (ck : DataChunk) : List UInt8 := slice ck.mem ck.lOfs ck.rOfs

def capacity (ck : DataChunk) : Nat := wordSub 32 ck.blockSize ck.rOfs

def store (ck : DataChunk) (bytes : List UInt8) : DataChunk :=
  { ck with mem := writeAt ck.mem ck.rOfs bytes, rOfs := wordAdd 32 ck.rOfs bytes.length }

/-- The three-way branch that both copy routines make on one block: all of the data fits, a part
of it fits, or the block is full. Also returns the length of the data left over. -/
def fill (ck : DataChunk) (data : List UInt8) : Nat × DataChunk :=
  if ck.capacity ≥ data.length then (0, ck.store data)
  else if ck.capacity > 0 then
    (data.length - ck.capacity, ck.store (data.take ck.capacity))
  else (data.length, ck)

def rewind (ck : DataChunk) : DataChunk := { ck with lOfs := 0, rOfs := 0 }

end DataChunk

structure Chunks where
  readyCks : List DataChunk
  freeCks : List DataChunk
  cResidentSize : Nat
  cMaxSize : Nat
  threshold : Nat
  ckAllocSize : Nat
  ckFreeCkCapacity : Nat
deriving DecidableEq, Repr

namespace Chunks

def new (maxSize residentSize : Nat) : Except String Chunks :=
  if maxSize < residentSize then
    .error "chunks: max_size must bigger then resident_size"
  else
    .ok { readyCks := [], freeCks := [], cResidentSize := residentSize, cMaxSize := maxSize,
          threshold := 1024, ckAllocSize := 0, ckFreeCkCapacity := 0 }

def pendingBytes (c : Chunks) : List UInt8 := c.readyCks.flatMap DataChunk.pending

def copyDataIntoReadyCK (c : Chunks) (data : List UInt8) : Nat × Chunks :=
  match c.readyCks.getLast? with
  | none => (data.length, c)
  | some ck =>
      ((ck.fill data).1, { c with readyCks := c.readyCks.dropLast ++ [(ck.fill data).2] })

def reuseFree (c : Chunks) (ck filled : DataChunk) (frees : List DataChunk) : Chunks :=
  { c with
    ckFreeCkCapacity := wordSub 32 c.ckFreeCkCapacity ck.blockSize
    freeCks := frees
    readyCks := c.readyCks ++ [filled] }

def copyFreeLoop : List DataChunk → Chunks → List UInt8 → Nat × Chunks
  | [], c, data => (data.length, c)
  | ck :: frees, c, data =>
      if data.length > 0 then
        copyFreeLoop frees (c.reuseFree ck (ck.fill data).2 frees)
          (data.drop (data.length - (ck.fill data).1))
      else (data.length, c)

def copyDataIntoFreeCK (c : Chunks) (data : List UInt8) : Nat × Chunks :=
  copyFreeLoop c.freeCks c data

/-- `while (k && !(k & i)) k >>= 1` from `k = 2 ^ (bits - 1)`. -/
def highBit : Nat → Nat → Nat
  | 0, _ => 0
  | bits + 1, i => if i.testBit bits then 2 ^ bits else highBit bits i

def ckCeilToK (threshold i : Nat) : Nat :=
  if i < threshold then threshold else highBit 32 i * 2 % 2 ^ 32

def copyDataIntoNewChunk (malloc : Bool) (c : Chunks) (data : List UInt8) : Int × Chunks :=
  let memSize := ckCeilToK c.threshold ((dataChunkSize + data.length) % 2 ^ 32)
  if malloc then
    (0, { c with
      readyCks := c.readyCks ++
        [{ blockSize := wordSub 32 memSize dataChunkSize, lOfs := 0, rOfs := data.length,
           mem := data }]
      ckAllocSize := wordAdd 32 c.ckAllocSize memSize })
  else (-1, c)

def copyDataIntoChunks (malloc : Bool) (c : Chunks) (data : List UInt8) : Int × Chunks :=
  let (ret, c) := copyDataIntoReadyCK c data
  if ret = 0 then (0, c)
  else
    let data := data.drop (data.length - ret)
    let (ret, c) := copyDataIntoFreeCK c data
    if ret = 0 then (0, c)
    else
      let data := data.drop (data.length - ret)
      let (ret, c) := copyDataIntoNewChunk malloc c data
      if ret = -1 then (-1, c) else (0, c)

/-- What is left for a new block does not fit into the memory asked for: the `memcpy` of
`copyDataIntoNewChunk` would write past the end of the block. -/
def overrunsNewChunk (c : Chunks) (data : List UInt8) : Bool :=
  let (ret, c) := copyDataIntoReadyCK c data
  if ret = 0 then false
  else
    let data := data.drop (data.length - ret)
    let (ret, c) := copyDataIntoFreeCK c data
    if ret = 0 then false
    else
      decide (ckCeilToK c.threshold ((dataChunkSize + ret) % 2 ^ 32) < dataChunkSize + ret)

def reduceFreeCK (c : Chunks) : Chunks :=
  match c.freeCks with
  | [] => c
  | ck :: frees =>
      { c with
        freeCks := frees
        ckAllocSize := wordSub 32 c.ckAllocSize (ck.blockSize + dataChunkSize)
        ckFreeCkCapacity := wordSub 32 c.ckFreeCkCapacity ck.blockSize }

def waterLoop : Nat → Chunks → Chunks
  | 0, c => c
  | n + 1, c =>
      if c.cResidentSize < c.ckAllocSize ∧ c.freeCks ≠ [] then waterLoop n (reduceFreeCK c) else c

/-- Frees recycled blocks while more than the resident size is allocated. Every turn of the loop
takes one block off the list. -/
def checkWaterLevel (c : Chunks) : Chunks := waterLoop c.freeCks.length c

def retireReady (c : Chunks) (cur : DataChunk) (readies : List DataChunk) : Chunks :=
  { c with
    ckFreeCkCapacity := wordAdd 32 c.ckFreeCkCapacity cur.blockSize
    freeCks := cur.rewind :: c.freeCks
    readyCks := readies }

def advanceReady (c : Chunks) (cur : DataChunk) (readies : List DataChunk) (n : Nat) : Chunks :=
  { c with readyCks := { cur with lOfs := wordAdd 32 cur.lOfs n } :: readies }

def drainLoop {σ : Type} (cb : Sink σ UInt8) : Nat → σ → Chunks → Option (Int × σ × Chunks)
  | 0, _, _ => none
  | n + 1, st, c =>
      match c.readyCks with
      | [] => some (0, st, c.checkWaterLevel)
      | cur :: readies =>
          let curSize := toSigned 32 (wordSub 32 cur.rOfs cur.lOfs)
          let (ret, st) := cb st cur.pending
          if ret ≤ 0 then some (ret, st, c)
          else if ret = curSize then
            drainLoop cb n st (c.retireReady cur readies)
          else if ret < curSize then
            -- the same block is offered again
            drainLoop cb n st (c.advanceReady cur readies ret.toNat)
          else drainLoop cb n st c

/-- Offers the pending bytes block by block to the callback. `none` means that the loop is still
running after one turn for every pending byte and one more. -/
def drainOutWithPipe {σ : Type} (cb : Sink σ UInt8) (st : σ) (c : Chunks) :
    Option (Int × σ × Chunks) :=
  if c.readyCks = [] then some (0, st, c) else drainLoop cb (c.pendingBytes.length + 1) st c

def resetLoop : List DataChunk → Chunks → Chunks
  | [], c => c
  | ck :: readies, c =>
      resetLoop readies
        { c with
          readyCks := readies
          ckFreeCkCapacity := wordAdd 32 c.ckFreeCkCapacity ck.blockSize
          freeCks := c.freeCks ++ [ck.rewind] }

def resetChunks (c : Chunks) : Chunks := (resetLoop c.readyCks c).checkWaterLevel

def useExistingChunk (c : Chunks) (length : Nat) : Bool :=
  match c.readyCks.getLast? with
  | none => decide (c.ckFreeCkCapacity ≥ length)
  | some ck =>
      if ck.capacity < length then false
      else
        -- wraps round to a large value unless the block is filled exactly
        decide (c.ckFreeCkCapacity ≥ wordSub 32 length ck.capacity)

def checkCapacity (c : Chunks) (length : Nat) : Bool :=
  !(c.useExistingChunk length == false &&
    decide (wordAdd 32 c.ckAllocSize length > c.cMaxSize))

end Chunks

end PinpointAgent.Cache
