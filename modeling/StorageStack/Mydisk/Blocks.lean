import Mathlib.Algebra.Group.Nat.Defs
import StorageStack.Mydisk.Model

/-!
# Blocks of an uncached disk

With the cache off, a disk of `nblocks` blocks is its file: reading block `b` yields the bytes from
`512 * b` on, and writing it replaces them. Nothing else about the disk moves except the position
in the file.
-/

namespace StorageStack.Mydisk
open Lib

/-- A disk whose file is exactly `nblocks` blocks long. The offsets of the blocks fit in an `int`. -/
structure Sized (d : Disk) (nblocks : Nat) : Prop where
  maxBlocks : d.maxBlocks = nblocks
  size : d.thefile.bytes.length = nblocks * 512
  small : nblocks * 512 < 2 ^ 31

/-- A disk as `mydisk_init` leaves it: the cache off and the file exactly `nblocks` blocks long. -/
structure Ready (d : Disk) (nblocks : Nat) : Prop where
  maxBlocks : d.maxBlocks = nblocks
  uncached : d.cacheEnabled = false
  size : d.thefile.bytes.length = nblocks * 512
  small : nblocks * 512 < 2 ^ 30

theorem Ready.sized {d : Disk} {nblocks : Nat} (ready : Ready d nblocks) : Sized d nblocks :=
  ⟨ready.maxBlocks, ready.size, Nat.lt_trans ready.small (by decide)⟩

theorem mydiskInit_bytes (d : Disk) (n : Nat) (type : Int) :
    (mydiskInit d true n type).2.thefile.bytes = List.replicate (512 * n) 0 := by
  have size : (512 * (n : Int)).toNat = 512 * n := by omega
  simp only [mydiskInit, if_true, File.write, size]
  simp [overlay]

theorem mydiskInit_sized (d : Disk) {n : Nat} (small : n * 512 < 2 ^ 31) (type : Int) : Sized (mydiskInit d true n type).2 n := by
  refine ⟨rfl, ?_, small⟩
  rw [mydiskInit_bytes, List.length_replicate, Nat.mul_comm]

theorem mydiskInit_ready {d : Disk} (uncached : d.cacheEnabled = false) {n : Nat} (small : n * 512 < 2 ^ 30)
    (type : Int) : Ready (mydiskInit d true n type).2 n :=
  ⟨rfl, uncached, (mydiskInit_sized d (by omega) type).size, small⟩

def Disk.store (d : Disk) (bytes : List UInt8) (pos : Nat) : Disk := { d with thefile := ⟨bytes, pos⟩ }

@[simp] theorem store_bytes (d : Disk) (bytes : List UInt8) (pos : Nat) :
    (d.store bytes pos).thefile.bytes = bytes := rfl

@[simp] theorem store_store (d : Disk) (bytes bytes' : List UInt8) (pos pos' : Nat) :
    (d.store bytes pos).store bytes' pos' = d.store bytes' pos' := rfl

theorem Ready.store {d : Disk} {nblocks : Nat} (ready : Ready d nblocks) {bytes : List UInt8} {pos : Nat}
    (size : bytes.length = nblocks * 512) : Ready (d.store bytes pos) nblocks :=
  ⟨ready.maxBlocks, ready.uncached, size, ready.small⟩

theorem seek_bytes (f : File) (off : Int) : (f.seek off).bytes = f.bytes := by
  unfold File.seek
  split <;> rfl

def block (bytes : List UInt8) (b : Nat) : List UInt8 := (bytes.drop (512 * b)).take 512

theorem length_block {bytes : List UInt8} {b nblocks : Nat} (size : bytes.length = nblocks * 512)
    (h : b < nblocks) : (block bytes b).length = 512 := by
  simp [block, size]; omega

theorem getElem?_block (bytes : List UInt8) (b i : Nat) :
    (block bytes b)[i]? = if i < 512 then bytes[512 * b + i]? else none :=
  getElem?_slice _ _ _ _

theorem seek_block {d : Disk} {nblocks b : Nat} (sized : Sized d nblocks) (h : b < nblocks) :
    d.thefile.seek (toInt32 ((b : Int) * 512)) = ⟨d.thefile.bytes, 512 * b⟩ := by
  have small := sized.small
  rw [toInt32_of_range (by omega) (by omega), File.seek, if_neg (by omega)]
  congr 1
  omega

theorem mydiskReadBlock_ok {d : Disk} {nblocks b : Nat} {buffer : List UInt8} (sized : Sized d nblocks)
    (uncached : d.cacheEnabled = false) (h : b < nblocks) (room : buffer.length = 512) :
    mydiskReadBlock d b buffer =
      .ok (0, block d.thefile.bytes b, d.store d.thefile.bytes (512 * b + 512)) := by
  have size := length_block sized.size h
  have inRange : ¬ (b : Int) > d.maxBlocks := by rw [sized.maxBlocks]; omega
  have off : ¬ d.cacheEnabled = true := by simp [uncached]
  unfold mydiskReadBlock
  dsimp only
  rw [if_neg inRange, if_neg off, seek_block sized h, File.read]
  dsimp only
  rw [show (d.thefile.bytes.drop (512 * b)).take 512 = block d.thefile.bytes b from rfl]
  have whole : overlay buffer 0 (block d.thefile.bytes b) = block d.thefile.bytes b := by
    simp [overlay, size, room]
  rw [blit, if_pos (by omega), whole, size]
  rfl

theorem mydiskWriteBlock_ok {d : Disk} {nblocks b : Nat} {data : List UInt8} (sized : Sized d nblocks)
    (h : b < nblocks) :
    mydiskWriteBlock d b data =
      (0, d.store (overlay d.thefile.bytes (512 * b) data) (512 * b + data.length)) := by
  have inRange : ¬ (b : Int) > d.maxBlocks := by rw [sized.maxBlocks]; omega
  have size := sized.size
  have gap : 512 * b - d.thefile.bytes.length = 0 := by omega
  simp only [mydiskWriteBlock, if_neg inRange, seek_block sized h, File.write, gap,
    List.replicate_zero, List.append_nil]
  rfl

/-- Patching a block and writing it back touches only the patched bytes of the file. -/
theorem overlay_block {bytes src : List UInt8} {b pos nblocks : Nat} (size : bytes.length = nblocks * 512)
    (h : b < nblocks) (fits : pos + src.length ≤ 512) :
    overlay bytes (512 * b) (overlay (block bytes b) pos src) = overlay bytes (512 * b + pos) src := by
  have blockSize := length_block size h
  have patched : (overlay (block bytes b) pos src).length = 512 := by
    rw [length_overlay (by omega), blockSize]
  apply List.ext_getElem?
  intro p
  rw [getElem?_overlay (by omega), patched, getElem?_overlay (by omega)]
  by_cases inBlock : 512 * b ≤ p ∧ p < 512 * b + 512
  · rw [if_pos inBlock, getElem?_overlay (by omega)]
    by_cases inPatch : 512 * b + pos ≤ p ∧ p < 512 * b + pos + src.length
    · rw [if_pos (by omega), if_pos inPatch, show p - 512 * b - pos = p - (512 * b + pos) by omega]
    · rw [if_neg (by omega), if_neg inPatch, getElem?_block, if_pos (by omega),
        show 512 * b + (p - 512 * b) = p by omega]
  · rw [if_neg inBlock, getElem?_overlay (by omega), if_neg (by omega)]

theorem patchBlock_ok {d : Disk} {nblocks b pos start len : Nat} {buffer : List UInt8}
    (ready : Ready d nblocks) (h : b < nblocks) (fits : pos + len ≤ 512)
    (source : start + len ≤ buffer.length) :
    patchBlock d b pos buffer start len =
      .ok (d.store (overlay d.thefile.bytes (512 * b + pos) ((buffer.drop start).take len))
        (512 * b + 512)) := by
  have size := length_block ready.size h
  have copied : ((buffer.drop start).take len).length = len := by simp; omega
  rw [patchBlock, mydiskReadBlock_ok ready.sized ready.uncached h (List.length_replicate ..), ok_bind]
  dsimp only
  rw [memcpy_ok source (by omega), ok_bind, mydiskWriteBlock_ok (ready.store ready.size).sized h]
  simp only [store_bytes, store_store]
  rw [overlay_block ready.size h (by omega), length_overlay (by omega), size]

theorem patchBlock_undefined {d : Disk} {nblocks b pos start len : Nat} {buffer : List UInt8}
    (ready : Ready d nblocks) (h : b < nblocks) (outside : buffer.length < start + len) :
    patchBlock d b pos buffer start len = .error .undefined := by
  rw [patchBlock, mydiskReadBlock_ok ready.sized ready.uncached h (List.length_replicate ..), ok_bind]
  dsimp only
  rw [memcpy_undefined outside, error_bind]

end StorageStack.Mydisk
