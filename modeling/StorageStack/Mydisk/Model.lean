import StorageStack.Lib.Buffer
import StorageStack.Lib.Machine

/-!
# The flat disk

A disk is one file of 512-byte blocks. `mydiskReadBlock` and `mydiskWriteBlock` move whole blocks,
`mydiskRead` and `mydiskWrite` move any range of bytes by splitting it at the block boundaries. The
block cache is a ring of entries; no function ever looks at the bytes of an entry.
-/

namespace StorageStack.Mydisk
open Lib

/-- An open file of the standard library. -/
structure File where
  bytes : List UInt8
  pos : Nat := 0

/-- `fseek(f, off, SEEK_SET)`, which fails and leaves the position when `off` is negative. -/
def File.seek (f : File) (off : Int) : File :=
  if off < 0 then f else { f with pos := off.toNat }

/-- `fread` of `n` bytes: what the file still has, up to `n`. -/
def File.read (f : File) (n : Nat) : List UInt8 × File :=
  let got := (f.bytes.drop f.pos).take n
  (got, { f with pos := f.pos + got.length })

/-- `fwrite`. A gap between the end of the file and the position reads as zeros afterwards. -/
def File.write (f : File) (data : List UInt8) : File :=
  { bytes := overlay (f.bytes ++ List.replicate (f.pos - f.bytes.length) 0) f.pos data
    pos := f.pos + data.length }

structure CacheEntry where
  blockId : Int
  isDirty : Int

/-- The globals of `caching.c`. -/
structure Cache where
  cacheBlocks : Nat
  next : Nat          -- `in`
  out : Nat
  queue : List CacheEntry

/-- The globals of `mydisk.c`, with the cache they use. -/
structure Disk where
  thefile : File
  maxBlocks : Int
  diskType : Int
  cacheEnabled : Bool
  cache : Cache

def Disk.initial : Disk :=
  { thefile := ⟨[], 0⟩, maxBlocks := 0, diskType := 0, cacheEnabled := false, cache := ⟨0, 0, 0, []⟩ }

/-- `opened` says whether the host could create the file. -/
def mydiskInit (d : Disk) (opened : Bool) (nblocks type : Int) : Int × Disk :=
  if opened then
    let zeros := List.replicate (512 * nblocks).toNat 0
    (0, { d with thefile := (⟨[], 0⟩ : File).write zeros, diskType := type, maxBlocks := nblocks })
  else (1, d)

/-- Insert an entry at `in` and return the index of the entry after it. -/
def createCachedBlock (c : Cache) (blockId : Int) : Outcome (Nat × Cache) :=
  if c.next < c.queue.length then
    let next := (c.next + 1) % c.cacheBlocks
    .ok (next, { c with queue := c.queue.set c.next ⟨blockId, 0⟩, next })
  else .error .undefined

/-- The return value, the buffer and the disk after the call. -/
def mydiskReadBlock (d : Disk) (blockId : Int) (buffer : List UInt8) :
    Outcome (Int × List UInt8 × Disk) :=
  let blockOffset := toInt32 (blockId * 512)
  if blockId > d.maxBlocks then .ok (1, buffer, d)
  else if d.cacheEnabled then do
    -- The block goes to a temporary that is freed again: the buffer keeps what it had.
    let (_, cache) ← createCachedBlock d.cache blockId
    let (_, thefile) := (d.thefile.seek blockOffset).read 512
    .ok (0, buffer, { d with thefile, cache })
  else do
    let (got, thefile) := (d.thefile.seek blockOffset).read 512
    .ok (0, ← blit buffer 0 got, { d with thefile })

/-- `buffer` is the 512 bytes to write. -/
def mydiskWriteBlock (d : Disk) (blockId : Int) (buffer : List UInt8) : Int × Disk :=
  if blockId > d.maxBlocks then (1, d)
  else (0, { d with thefile := (d.thefile.seek (toInt32 (blockId * 512))).write buffer })

/-- The last branch has no `return`: `unset` is what the caller finds then. -/
def checkParams (d : Disk) (unset : Int) (startAddress nbytes : Int) : Int :=
  if startAddress < 0 ∨ startAddress > d.maxBlocks * 511 then 1
  else if nbytes < 0 ∨ nbytes > d.maxBlocks * 512 then 1
  else if nbytes = 0 then 0
  else if nbytes + startAddress > d.maxBlocks * 512 then 1
  else unset

/-- The loop of `mydisk_read`, with `amount` blocks done. -/
def readLoop (offset bytesToRead remainderBytes : Nat) :
    (remaining : Nat) → (amount blockId : Nat) → (buffer : List UInt8) → Disk →
      Outcome (List UInt8 × Disk)
  | 0, _, _, buffer, d => .ok (buffer, d)
  | remaining + 1, amount, blockId, buffer, d => do
    let (_, tempBlock, d) ← mydiskReadBlock d blockId (List.replicate 512 0)
    let buffer ←
      if amount = 0 ∧ remaining = 0 then memcpy buffer 0 tempBlock offset remainderBytes
      else if amount = 0 ∧ offset ≠ 0 then memcpy buffer 0 tempBlock offset bytesToRead
      else if remaining = 0 ∧ remainderBytes ≠ 0 then
        memcpy buffer bytesToRead tempBlock 0 remainderBytes
      else memcpy buffer 0 tempBlock 0 512
    readLoop offset bytesToRead remainderBytes remaining (amount + 1) (blockId + 1) buffer d

/-- `buffer` is the caller's whole buffer, of which the first `nbytes` bytes are asked for. -/
def mydiskRead (d : Disk) (unset : Int) (startAddress nbytes : Int) (buffer : List UInt8) :
    Outcome (Int × List UInt8 × Disk) :=
  if checkParams d unset startAddress nbytes = 1 then .ok (1, buffer, d)
  else do
    let start := startAddress.toNat
    let n := nbytes.toNat
    let offset := start % 512
    let across := n + offset > 512
    let partialLast := (offset + n) % 512 ≠ 0
    let remaining := if across then n / 512 + (if partialLast then 1 else 0) else 1
    let bytesToRead := if across then 512 - offset else n
    let remainderBytes := if across ∧ partialLast then (offset + n) % 512 else n % 512
    let (buffer, d) ← readLoop offset bytesToRead remainderBytes remaining 0 (start / 512) buffer d
    .ok (0, buffer, d)

/-- Read block `blockId`, copy `len` bytes of the source over it at `at` and write it back. -/
def patchBlock (d : Disk) (blockId pos : Nat) (buffer : List UInt8) (start len : Nat) : Outcome Disk := do
  let (_, tempBlock, d) ← mydiskReadBlock d blockId (List.replicate 512 0)
  let tempBlock ← memcpy tempBlock pos buffer start len
  .ok (mydiskWriteBlock d blockId tempBlock).2

/-- Write the 512 bytes of the source from `start` on as block `blockId`. -/
def writeWhole (d : Disk) (blockId : Nat) (buffer : List UInt8) (start : Nat) : Outcome Disk := do
  let data ← slice buffer start 512
  .ok (mydiskWriteBlock d blockId data).2

/-- The loop of `mydisk_write`, with `amount` blocks done. -/
def writeLoop (offset bytesToWrite remainderBytes : Nat) (partialStart partialEnd : Bool)
    (buffer : List UInt8) :
    (remaining : Nat) → (amount blockId : Nat) → Disk → Outcome Disk
  | 0, _, _, d => .ok d
  | remaining + 1, amount, blockId, d => do
    let d ←
      if amount = 0 ∧ partialStart then patchBlock d blockId offset buffer 0 bytesToWrite
      else if remaining = 0 ∧ partialEnd then
        patchBlock d blockId 0 buffer bytesToWrite remainderBytes
      else writeWhole d blockId buffer bytesToWrite
    writeLoop offset bytesToWrite remainderBytes partialStart partialEnd buffer remaining (amount + 1)
      (blockId + 1) d

def mydiskWrite (d : Disk) (unset : Int) (startAddress nbytes : Int) (buffer : List UInt8) :
    Outcome (Int × Disk) :=
  if checkParams d unset startAddress nbytes = 1 then .ok (1, d)
  else do
    let start := startAddress.toNat
    let n := nbytes.toNat
    let offset := start % 512
    let across := n + offset > 512
    let partialEnd := decide (across ∧ (offset + n) % 512 ≠ 0)
    let remaining := if across then n / 512 + (if partialEnd then 1 else 0) else 1
    let d ← writeLoop offset (512 - offset) ((offset + n) % 512) (decide (offset ≠ 0)) partialEnd buffer
      remaining 0 (start / 512) d
    .ok (0, d)

end StorageStack.Mydisk
