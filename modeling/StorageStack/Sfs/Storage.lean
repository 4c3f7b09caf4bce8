import StorageStack.Lib.Codec
import StorageStack.Lib.Runs
import StorageStack.Mydisk.Device
import StorageStack.Sfs.Layout

/-!
# The storages behind the image

The file system reads and writes its blocks in a file of its own, or on the flat disk. A file has only the blocks up
to the last one that was written, and a read behind it leaves the buffer as it was; the disk has 1024 blocks.
-/

namespace StorageStack.Sfs
open Lib Mydisk

/-! ### A file -/

namespace Ext

/-- The offset of a block, which is an `unsigned int`. -/
def offset (bid : Nat) : Nat := bid * 512 % 4294967296

def sfsReadBlock (fh : File) (buf : Block) (bid : Nat) : Block × File :=
  let (got, fh) := (fh.seek (offset bid)).read 512
  (buf.patch 0 got, fh)

def sfsWriteBlock (fh : File) (buf : Block) (bid : Nat) : File := (fh.seek (offset bid)).write buf.toList

def sfsInitStorage : File := ⟨[], 0⟩

/-- The file of the host is opened again after it was closed. -/
def sfsRemountStorage (fh : File) : File := ⟨fh.bytes, 0⟩

end Ext

/-! ### The flat disk -/

namespace Exta1

/-- The ids of the disk are signed. Whether it refuses one is not looked at. -/
def sfsReadBlock (d : Disk) (buf : Block) (bid : Nat) : Outcome (Block × Disk) := do
  let (_, buffer, d) ← mydiskReadBlock d (toInt32 bid) buf.toList
  .ok (Bytes.ofList buffer, d)

/-- `mydisk_write_block` without its return value. -/
def writeBlock (d : Disk) (blockId : Int) (buffer : List UInt8) : Disk := (mydiskWriteBlock d blockId buffer).2

def sfsWriteBlock (d : Disk) (buf : Block) (bid : Nat) : Disk := writeBlock d (toInt32 bid) buf.toList

def sfsInitStorage : Disk := (mydiskInit .initial true (1024 : Nat) 0).2

end Exta1

/-! ### Runs -/

inductive StorageCall where
  | read (buf : Block) (bid : Nat)
  | write (buf : Block) (bid : Nat)
  | remount

namespace StorageCall

/-- With the buffer that a read leaves. -/
def onFile : StorageCall → File → Outcome (List (Option Block) × File)
  | read buf bid, fh => .ok ([some (Ext.sfsReadBlock fh buf bid).1], (Ext.sfsReadBlock fh buf bid).2)
  | write buf bid, fh => .ok ([none], Ext.sfsWriteBlock fh buf bid)
  | remount, fh => .ok ([none], Ext.sfsRemountStorage fh)

/-- The flat disk is not opened again. -/
def onDisk : StorageCall → Disk → Outcome (List (Option Block) × Disk)
  | read buf bid, d => do
    let (buf, d) ← Exta1.sfsReadBlock d buf bid
    .ok ([some buf], d)
  | write buf bid, d => .ok ([none], Exta1.sfsWriteBlock d buf bid)
  | remount, _ => .error .undefined

/-- The image and how many blocks the file has. -/
def reply : StorageCall → Image × Nat → Option Block × (Image × Nat)
  | read _ bid, ref => (some (ref.1.read bid), ref)
  | write buf bid, ref => (none, (ref.1.write bid buf, max ref.2 (bid % 8388608 + 1)))
  | remount, ref => (none, ref)

/-- What is read from a file was written, or the buffer is empty anyway. -/
def InFile : StorageCall → Image × Nat → Prop
  | read buf bid, ref => bid % 8388608 < ref.2 ∨ buf = .zero
  | write _ _, _ => True
  | remount, _ => True

def OnDisk : StorageCall → Prop
  | read _ bid => bid < 1024
  | write _ bid => bid < 1024
  | remount => False

instance : ∀ c : StorageCall, Decidable c.OnDisk
  | read _ bid => inferInstanceAs (Decidable (bid < 1024))
  | write _ bid => inferInstanceAs (Decidable (bid < 1024))
  | remount => .isFalse id

end StorageCall

/-- The blocks of the file are those of the image, which is blank behind them. -/
structure Backs (fh : File) (ref : Image × Nat) : Prop where
  whole : fh.bytes.length = 512 * ref.2
  front : ∀ i < 8388608, i < ref.2 → block fh.bytes i = (ref.1.read i).toList
  behind : ∀ i < 8388608, ref.2 ≤ i → ref.1.read i = .zero

structure OnBlocks (d : Disk) (ref : Image × Nat) : Prop where
  sized : Sized d 1024
  uncached : d.cacheEnabled = false
  holds : Holds 1024 d fun b => (ref.1.read b.toNat).toList

variable {fh : File} {d : Disk} {ref : Image × Nat} {c : StorageCall}

theorem offset_eq (bid : Nat) : Ext.offset bid = 512 * (bid % 8388608) := by
  unfold Ext.offset
  omega

theorem toList_zero : (Bytes.zero : Block).toList = List.replicate 512 0 := List.ofFn_const 512 0

theorem seek_offset (fh : File) (bid : Nat) : fh.seek (Ext.offset bid) = ⟨fh.bytes, 512 * (bid % 8388608)⟩ := by
  rw [File.seek, if_neg (by omega), Int.toNat_natCast, offset_eq]

theorem read_block (image : Image) (bid : Nat) : image.read bid = image.read (bid % 8388608) :=
  image.read_congr (Nat.mod_mod _ _).symm

/-- A gap in front of the block is filled with zeros. -/
theorem block_write {bytes data : List UInt8} {j i k : Nat} (size : bytes.length = 512 * k) (whole : data.length = 512) :
    block (overlay (bytes ++ List.replicate (512 * j - bytes.length) 0) (512 * j) data) i =
      if i = j then data else if i < k then block bytes i else if i < j then List.replicate 512 0 else [] := by
  apply List.ext_getElem?
  intro p
  have room : 512 * j ≤ (bytes ++ List.replicate (512 * j - bytes.length) 0).length := by
    rw [List.length_append, List.length_replicate]
    omega
  rw [getElem?_block, getElem?_overlay_of_le room, whole]
  by_cases inside : p < 512
  · rw [if_pos inside]
    by_cases here : i = j
    · rw [if_pos here, if_pos (by omega), here, Nat.add_sub_cancel_left]
    · rw [if_neg here, if_neg (by omega)]
      by_cases old : i < k
      · rw [if_pos old, List.getElem?_append_left (by omega), getElem?_block, if_pos inside]
      · rw [if_neg old, List.getElem?_append_right (by omega)]
        by_cases gap : i < j
        · rw [if_pos gap, List.getElem?_replicate, List.getElem?_replicate, if_pos (by omega), if_pos inside]
        · rw [if_neg gap, List.getElem?_replicate, if_neg (by omega), List.getElem?_nil]
  · rw [if_neg inside]
    split
    · rw [List.getElem?_eq_none (by omega)]
    · split
      · rw [getElem?_block, if_neg inside]
      · split
        · rw [List.getElem?_replicate, if_neg inside]
        · rw [List.getElem?_nil]

/-! ### Calls on a file -/

theorem Backs.read (backs : Backs fh ref) {buf : Block} {bid : Nat} (inFile : (StorageCall.read buf bid).InFile ref) :
    (Ext.sfsReadBlock fh buf bid).1 = ref.1.read bid ∧ Backs (Ext.sfsReadBlock fh buf bid).2 ref := by
  have size := backs.whole
  have low : bid % 8388608 < 8388608 := Nat.mod_lt _ (by decide)
  unfold Ext.sfsReadBlock
  rw [seek_offset, File.read]
  dsimp only
  refine ⟨?_, backs.whole, backs.front, backs.behind⟩
  rw [read_block]
  by_cases front : bid % 8388608 < ref.2
  · have got := backs.front _ low front
    rw [block] at got
    rw [got, Bytes.patch_toList]
  · have empty : (fh.bytes.drop (512 * (bid % 8388608))).take 512 = [] := by
      rw [List.drop_of_length_le (by omega), List.take_nil]
    rw [empty, Bytes.patch_nil, backs.behind _ low (by omega)]
    exact inFile.resolve_left front

theorem Backs.write (backs : Backs fh ref) (buf : Block) (bid : Nat) :
    Backs (Ext.sfsWriteBlock fh buf bid) ((StorageCall.write buf bid).reply ref).2 := by
  have size := backs.whole
  have whole := buf.length_toList
  have low : bid % 8388608 < 8388608 := Nat.mod_lt _ (by decide)
  have blocks : ∀ i, block (Ext.sfsWriteBlock fh buf bid).bytes i = if i = bid % 8388608 then buf.toList
      else if i < ref.2 then block fh.bytes i else if i < bid % 8388608 then List.replicate 512 0 else [] := by
    intro i
    rw [Ext.sfsWriteBlock, seek_offset, File.write]
    exact block_write size whole
  have same : ∀ i < 8388608, (ref.1.write bid buf).read i = if i = bid % 8388608 then buf else ref.1.read i := by
    intro i inside
    split
    · rename_i here
      rw [here, ← read_block, Image.read_write]
    · rename_i other
      exact ref.1.read_write_of_ne buf (by omega)
  constructor
  · rw [Ext.sfsWriteBlock, seek_offset, File.write, StorageCall.reply]
    dsimp only
    rw [overlay, List.length_append, List.length_append, List.length_take, List.length_drop, List.length_append,
      List.length_replicate, whole]
    omega
  · intro i inside front
    rw [StorageCall.reply] at front ⊢
    dsimp only at front ⊢
    rw [blocks i, same i inside]
    by_cases here : i = bid % 8388608
    · rw [if_pos here, if_pos here]
    · rw [if_neg here, if_neg here]
      by_cases old : i < ref.2
      · rw [if_pos old, backs.front i inside old]
      · rw [if_neg old, if_pos (by omega), backs.behind i inside (by omega), toList_zero]
  · intro i inside behind
    rw [StorageCall.reply] at behind ⊢
    dsimp only at behind ⊢
    rw [same i inside, if_neg (by omega)]
    exact backs.behind i inside (by omega)

theorem StorageCall.onFile_backs (backs : Backs fh ref) (inFile : c.InFile ref) :
    ∃ fh', c.onFile fh = .ok ([(c.reply ref).1], fh') ∧ Backs fh' (c.reply ref).2 := by
  cases c with
  | read buf bid =>
    obtain ⟨got, backs'⟩ := backs.read inFile
    exact ⟨_, by rw [onFile, got, reply], backs'⟩
  | write buf bid => exact ⟨_, rfl, backs.write buf bid⟩
  | remount => exact ⟨_, rfl, backs.whole, backs.front, backs.behind⟩

theorem backs_start : Backs Ext.sfsInitStorage (Image.blank, 0) where
  whole := rfl
  front _ _ below := absurd below (Nat.not_lt_zero _)
  behind i _ _ := Image.read_blank i

/-! ### Calls on the flat disk -/

theorem StorageCall.onDisk_blocks (on : OnBlocks d ref) (inside : c.OnDisk) :
    ∃ d', c.onDisk d = .ok ([(c.reply ref).1], d') ∧ OnBlocks d' (c.reply ref).2 := by
  cases c with
  | read buf bid =>
    have id : toInt32 bid = bid := toInt32_of_range (by omega) (by unfold OnDisk at inside; omega)
    obtain ⟨d', read, sized, uncached, holds⟩ := read_holds on.sized on.uncached on.holds inside buf
    refine ⟨d', ?_, sized, uncached, holds⟩
    rw [onDisk, Exta1.sfsReadBlock, id, read, ok_bind]
    dsimp only
    rw [ok_bind, Bytes.ofList_toList, Int.toNat_natCast, reply]
  | write buf bid =>
    have id : toInt32 bid = bid := toInt32_of_range (by omega) (by unfold OnDisk at inside; omega)
    obtain ⟨d', written, sized, enabled, -, holds⟩ := write_holds on.sized on.holds inside buf
    refine ⟨d', ?_, sized, enabled.trans on.uncached, ?_⟩
    · rw [onDisk, Exta1.sfsWriteBlock, id, Exta1.writeBlock, written, reply]
    · intro b below
      rw [holds b below, Function.update_apply, reply]
      dsimp only
      rw [Int.toNat_natCast]
      have small : bid < 1024 := inside
      by_cases here : b = bid
      · rw [if_pos (by omega), here, Image.read_write]
      · rw [if_neg (by omega), ref.1.read_write_of_ne buf (by omega)]
  | remount => exact absurd inside id

theorem onBlocks_start : OnBlocks Exta1.sfsInitStorage (Image.blank, 0) where
  sized := mydiskInit_sized .initial (by decide) 0
  uncached := rfl
  holds b below := by
    rw [Exta1.sfsInitStorage, holds_init .initial 1024 0 b below, Device.blank, ← toList_zero]
    exact congrArg Bytes.toList (Image.read_blank _).symm

/-- In every run each storage answers as the image does: the file as long as what is read was written or the buffer is
empty, also when it is opened again in between, and the flat disk as long as the ids are those of its 1024 blocks. -/
theorem storages_answer {calls : List StorageCall} :
    (Meets (alongside StorageCall.onFile StorageCall.reply) (fun c w => c.InFile w.2) calls
        (Ext.sfsInitStorage, (Image.blank, 0)) →
      answers StorageCall.onFile calls Ext.sfsInitStorage = .ok (predict StorageCall.reply calls (Image.blank, 0))) ∧
    ((∀ c ∈ calls, c.OnDisk) →
      answers StorageCall.onDisk calls Exta1.sfsInitStorage = .ok (predict StorageCall.reply calls (Image.blank, 0))) := by
  have file : ∀ (c : StorageCall) fh ref, Backs fh ref → c.InFile ref →
      ∃ fh', c.onFile fh = .ok ([(c.reply ref).1], fh') ∧ Backs fh' (c.reply ref).2 :=
    fun _ _ _ backs inFile => StorageCall.onFile_backs backs inFile
  have disk : ∀ (c : StorageCall) d ref, OnBlocks d ref → c.OnDisk →
      ∃ d', c.onDisk d = .ok ([(c.reply ref).1], d') ∧ OnBlocks d' (c.reply ref).2 :=
    fun _ _ _ on inside => StorageCall.onDisk_blocks on inside
  constructor
  · intro meets
    exact (answers_predicted Backs file backs_start meets).1
  · intro inside
    exact (answers_predicted OnBlocks disk onBlocks_start (Meets.of_forall inside)).1

def note : Block := Bytes.zero.setWord 0 7

/-- Read are a block that was written, one in the gap in front of it, and one behind the end of the file. -/
def notes : List StorageCall := [.write note 3, .remount, .read note 3, .read note 1, .read .zero 5]

theorem note_meets : Meets (alongside StorageCall.onFile StorageCall.reply) (fun c w => c.InFile w.2) notes
    (Ext.sfsInitStorage, (Image.blank, 0)) := by
  refine ⟨trivial, ?_⟩
  rintro _ ⟨⟩
  refine ⟨trivial, ?_⟩
  rintro _ ⟨⟩
  refine ⟨Or.inl (by decide), ?_⟩
  rintro _ ⟨⟩
  refine ⟨Or.inl (by decide), ?_⟩
  rintro _ ⟨⟩
  exact ⟨Or.inr rfl, fun _ _ => trivial⟩

def noted : List StorageCall := [.write note 3, .read note 3, .read note 1]

theorem notes_predicted : predict StorageCall.reply notes (Image.blank, 0) = [none, none, some note, some .zero, some .zero] ∧
    predict StorageCall.reply noted (Image.blank, 0) = [none, some note, some .zero] := by
  have other : ∀ bid, bid % 8388608 ≠ 3 → (Image.blank.write 3 note).read bid = .zero :=
    fun bid apart => (Image.read_write_of_ne _ note apart).trans (Image.read_blank bid)
  have gap := other 1 (by decide)
  have behind := other 5 (by decide)
  constructor
  · simp only [notes, predict, StorageCall.reply, Image.read_write, gap, behind]
  · simp only [noted, predict, StorageCall.reply, Image.read_write, gap]

theorem notes_answers : answers StorageCall.onFile notes Ext.sfsInitStorage =
      .ok [none, none, some note, some .zero, some .zero] ∧
    answers StorageCall.onDisk noted Exta1.sfsInitStorage = .ok [none, some note, some .zero] :=
  ⟨(storages_answer.1 note_meets).trans (congrArg _ notes_predicted.1),
    (storages_answer.2 (by decide)).trans (congrArg _ notes_predicted.2)⟩

end StorageStack.Sfs
