import Mathlib.Logic.Function.Basic
import StorageStack.Lib.Bytes
import StorageStack.Mydisk.Blocks

/-!
# The disk as a device

A device of `n` blocks answers a read with what was written last and refuses ids that are no blocks. The disk
takes the id behind the last block and negative ids for blocks; without them it is a device.
-/

namespace StorageStack.Mydisk
open Lib

/-- What the blocks of a device hold. -/
abbrev Device := Int → List UInt8

def Device.blank : Device := fun _ => List.replicate 512 0

inductive BlockCall where
  | read (blockId : Int) (buffer : Bytes 512)
  | write (blockId : Int) (buffer : Bytes 512)

namespace BlockCall

def blockId : BlockCall → Int
  | read blockId _ => blockId
  | write blockId _ => blockId

def buffer : BlockCall → Bytes 512
  | read _ buffer => buffer
  | write _ buffer => buffer

/-- The return value, the buffer and the disk after the call. -/
def run (d : Disk) : BlockCall → Outcome (Int × List UInt8 × Disk)
  | read blockId buffer => mydiskReadBlock d blockId buffer.toList
  | write blockId buffer =>
    let (r, d) := mydiskWriteBlock d blockId buffer.toList
    .ok (r, buffer.toList, d)

def store (dev : Device) : BlockCall → Device
  | read _ _ => dev
  | write blockId buffer => Function.update dev blockId buffer.toList

end BlockCall

def Valid (n : Nat) (blockId : Int) : Prop := 0 ≤ blockId ∧ blockId < n

instance (n : Nat) (blockId : Int) : Decidable (Valid n blockId) := inferInstanceAs (Decidable (_ ∧ _))

/-- The answer of a device of `n` blocks. -/
structure Answered (n : Nat) (dev : Device) (c : BlockCall) (d : Disk) (r : Int) (buffer : List UInt8) (d' : Disk) : Prop where
  served : Valid n c.blockId → r = 0 ∧ ∀ blockId b, c = .read blockId b → buffer = dev blockId
  refused : ¬ Valid n c.blockId → r = 1 ∧ buffer = c.buffer.toList ∧ d' = d

/-- Every call is answered, and the file keeps its size. -/
def ObeysLaw (n : Nat) : List BlockCall → Device → Disk → Prop
  | [], _, d => d.thefile.bytes.length = n * 512
  | c :: calls, dev, d => d.thefile.bytes.length = n * 512 ∧ ∃ r buffer d', c.run d = .ok (r, buffer, d') ∧
      Answered n dev c d r buffer d' ∧ ObeysLaw n calls (c.store dev) d'

variable {d d' : Disk} {n b : Nat} {dev : Device} {c : BlockCall} {calls : List BlockCall} {r : Int} {buffer : List UInt8}

/-! ### What holds of every call -/

/-- A read that is not refused stores at most a block. -/
theorem mydiskReadBlock_uncached (uncached : d.cacheEnabled = false) {blockId : Int} (inside : blockId ≤ d.maxBlocks)
    (room : buffer.length = 512) : ∃ buffer' thefile,
      mydiskReadBlock d blockId buffer = .ok (0, buffer', { d with thefile }) := by
  have within : ¬ blockId > d.maxBlocks := by omega
  have off : ¬ d.cacheEnabled = true := by rw [uncached]; decide
  rw [mydiskReadBlock]
  dsimp only
  rw [if_neg within, if_neg off, File.read]
  dsimp only
  rw [blit, if_pos (by rw [List.length_take]; omega), ok_bind]
  exact ⟨_, _, rfl⟩

theorem BlockCall.run_of_le (uncached : d.cacheEnabled = false) (inside : c.blockId ≤ d.maxBlocks) :
    ∃ buffer thefile, c.run d = .ok (0, buffer, { d with thefile }) := by
  cases c with
  | read blockId buffer => exact mydiskReadBlock_uncached uncached inside buffer.length_toList
  | write blockId buffer =>
    have within : ¬ blockId > d.maxBlocks := not_lt.mpr inside
    rw [run, mydiskWriteBlock, if_neg within]
    exact ⟨_, _, rfl⟩

theorem BlockCall.run_of_gt (outside : d.maxBlocks < c.blockId) : c.run d = .ok (1, c.buffer.toList, d) := by
  cases c with
  | read blockId buffer => exact if_pos outside
  | write blockId buffer =>
    have past : blockId > d.maxBlocks := outside
    rw [run, mydiskWriteBlock, if_pos past]
    rfl

theorem ObeysLaw.ids (uncached : d.cacheEnabled = false) (capacity : d.maxBlocks = n) (law : ObeysLaw n calls dev d) :
    ∀ c ∈ calls, 0 ≤ c.blockId ∧ c.blockId ≠ n := by
  induction calls generalizing dev d with
  | nil => exact fun c member => absurd member List.not_mem_nil
  | cons c calls ih =>
    obtain ⟨-, r, buffer, d', run, answered, rest⟩ := law
    by_cases inside : c.blockId ≤ n
    · obtain ⟨buffer', thefile, run'⟩ := BlockCall.run_of_le (c := c) uncached (by omega)
      obtain ⟨rfl, same⟩ := Prod.mk.inj (Except.ok.inj (run.symm.trans run'))
      obtain ⟨rfl, rfl⟩ := Prod.mk.inj same
      have valid : Valid n c.blockId := by
        by_contra invalid
        exact absurd (answered.refused invalid).1 (by decide)
      intro c' member
      rcases List.mem_cons.mp member with rfl | member
      · exact ⟨valid.1, ne_of_lt valid.2⟩
      · refine ih ?_ ?_ rest c' member
        · exact uncached
        · exact capacity
    · have run' := BlockCall.run_of_gt (d := d) (c := c) (by omega)
      have unchanged : d' = d := congrArg (fun answer => answer.2.2) (Except.ok.inj (run.symm.trans run'))
      rw [unchanged] at rest
      intro c' member
      rcases List.mem_cons.mp member with rfl | member
      · omega
      · exact ih uncached capacity rest c' member

/-! ### The blocks of the file -/

def Holds (n : Nat) (d : Disk) (dev : Device) : Prop := ∀ b < n, block d.thefile.bytes b = dev b

theorem block_overlay {bytes data : List UInt8} {b c : Nat} (size : bytes.length = n * 512) (hb : b < n)
    (whole : data.length = 512) :
    block (overlay bytes (512 * b) data) c = if c = b then data else block bytes c := by
  apply List.ext_getElem?
  intro i
  by_cases same : c = b
  · subst same
    rw [if_pos rfl, getElem?_block, getElem?_overlay (by omega)]
    by_cases inside : i < 512
    · rw [if_pos inside, if_pos (by omega), Nat.add_sub_cancel_left]
    · rw [if_neg inside, List.getElem?_eq_none (by omega)]
  · rw [if_neg same, getElem?_block, getElem?_block, getElem?_overlay (by omega)]
    by_cases inside : i < 512
    · rw [if_pos inside, if_pos inside, if_neg (by omega)]
    · rw [if_neg inside, if_neg inside]

theorem Sized.store (sized : Sized d n) {bytes : List UInt8} {pos : Nat}
    (size : bytes.length = n * 512) : Sized (d.store bytes pos) n :=
  ⟨sized.maxBlocks, size, sized.small⟩

theorem write_holds (sized : Sized d n) (holds : Holds n d dev) (hb : b < n) (data : Bytes 512) :
    ∃ d', mydiskWriteBlock d b data.toList = (0, d') ∧ Sized d' n ∧ d'.cacheEnabled = d.cacheEnabled ∧ d'.cache = d.cache ∧
      Holds n d' (Function.update dev b data.toList) := by
  have whole := data.length_toList
  have size := sized.size
  refine ⟨_, mydiskWriteBlock_ok sized hb, sized.store ((length_overlay (by omega)).trans size), rfl, rfl, fun c hc => ?_⟩
  rw [store_bytes, block_overlay size hb whole, Function.update_apply]
  by_cases same : c = b
  · subst same
    rw [if_pos rfl, if_pos rfl]
  · rw [if_neg same, if_neg (by omega), holds c hc]

theorem read_holds (sized : Sized d n) (uncached : d.cacheEnabled = false) (holds : Holds n d dev) (hb : b < n)
    (data : Bytes 512) :
    ∃ d', mydiskReadBlock d b data.toList = .ok (0, dev b, d') ∧ Sized d' n ∧ d'.cacheEnabled = false ∧ Holds n d' dev := by
  refine ⟨d.store d.thefile.bytes (512 * b + 512), ?_, sized.store sized.size, uncached, holds⟩
  rw [mydiskReadBlock_ok sized uncached hb data.length_toList, holds b hb]

theorem BlockCall.run_holds (sized : Sized d n) (uncached : d.cacheEnabled = false) (holds : Holds n d dev)
    (valid : Valid n c.blockId) :
    ∃ buffer d', c.run d = .ok (0, buffer, d') ∧ (∀ blockId b, c = .read blockId b → buffer = dev blockId) ∧ Sized d' n ∧
      d'.cacheEnabled = false ∧ Holds n d' (c.store dev) := by
  obtain ⟨low, high⟩ := valid
  cases c with
  | read blockId buffer =>
    obtain ⟨b, rfl⟩ := Int.eq_ofNat_of_zero_le low
    obtain ⟨d', run, sized', uncached', holds'⟩ := read_holds sized uncached holds (Int.ofNat_lt.mp high) buffer
    refine ⟨_, d', run, fun blockId b same => ?_, sized', uncached', holds'⟩
    cases same
    rfl
  | write blockId buffer =>
    obtain ⟨b, rfl⟩ := Int.eq_ofNat_of_zero_le low
    obtain ⟨d', run, sized', cache, -, holds'⟩ := write_holds sized holds (Int.ofNat_lt.mp high) buffer
    refine ⟨buffer.toList, d', ?_, fun blockId b same => BlockCall.noConfusion same, sized', cache.trans uncached, holds'⟩
    rw [BlockCall.run, run]

theorem obeysLaw_of_ids (sized : Sized d n) (uncached : d.cacheEnabled = false) (holds : Holds n d dev)
    (ids : ∀ c ∈ calls, 0 ≤ c.blockId ∧ c.blockId ≠ n) : ObeysLaw n calls dev d := by
  induction calls generalizing dev d with
  | nil => exact sized.size
  | cons c calls ih =>
    obtain ⟨low, other⟩ := ids c (List.mem_cons_self ..)
    have rest := fun c' member => ids c' (List.mem_cons_of_mem c member)
    by_cases valid : Valid n c.blockId
    · obtain ⟨buffer, d', run, read, sized', uncached', holds'⟩ := BlockCall.run_holds sized uncached holds valid
      exact ⟨sized.size, 0, buffer, d', run, ⟨fun _ => ⟨rfl, read⟩, fun no => absurd valid no⟩, ih sized' uncached' holds' rest⟩
    · have past : d.maxBlocks < c.blockId := by
        have capacity := sized.maxBlocks
        unfold Valid at valid
        omega
      refine ⟨sized.size, 1, _, d, BlockCall.run_of_gt past, ⟨fun yes => absurd yes valid, fun _ => ⟨rfl, rfl, rfl⟩⟩, ?_⟩
      refine ih sized uncached (fun b hb => ?_) rest
      rw [holds b hb]
      cases c with
      | read _ _ => rfl
      | write blockId buffer =>
        have apart : (b : Int) ≠ blockId := by
          rintro rfl
          exact valid ⟨low, Int.ofNat_lt.mpr hb⟩
        exact (Function.update_of_ne apart ..).symm

theorem holds_init (d : Disk) (n : Nat) (type : Int) : Holds n (mydiskInit d true n type).2 Device.blank := by
  intro b hb
  apply List.ext_getElem?
  intro i
  rw [mydiskInit_bytes, getElem?_block, Device.blank, List.getElem?_replicate, List.getElem?_replicate]
  by_cases inside : i < 512
  · rw [if_pos inside, if_pos inside, if_pos (by omega)]
  · rw [if_neg inside, if_neg inside]

/-- A run of block calls on a new disk obeys the law of the device if and only if no call has a negative id
or the id behind the last block. -/
theorem obeysLaw_iff (d : Disk) (uncached : d.cacheEnabled = false) (n : Nat) (small : n * 512 < 2 ^ 31) (type : Int)
    (calls : List BlockCall) :
    ObeysLaw n calls Device.blank (mydiskInit d true n type).2 ↔ ∀ c ∈ calls, 0 ≤ c.blockId ∧ c.blockId ≠ n :=
  ⟨ObeysLaw.ids uncached rfl, obeysLaw_of_ids (mydiskInit_sized d small type) uncached (holds_init d n type)⟩

theorem initial_obeysLaw : ObeysLaw 1 [.write 0 .zero, .read 0 .zero,
    .read 2 .zero] Device.blank (mydiskInit .initial true 1 0).2 :=
  (obeysLaw_iff .initial rfl 1 (by decide) 0 [.write 0 .zero, .read 0 .zero, .read 2 .zero]).mpr (by
    intro c member
    rcases List.mem_cons.mp member with rfl | member
    · decide
    rcases List.mem_cons.mp member with rfl | member
    · decide
    obtain rfl := List.mem_singleton.mp member
    decide)

theorem block_behind_served : ¬ ObeysLaw 1 [.write 1 .zero] Device.blank (mydiskInit .initial true 1 0).2 := by
  intro law
  have ids := ObeysLaw.ids (d := (mydiskInit .initial true 1 0).2) rfl rfl law (.write 1 .zero) (List.mem_cons_self ..)
  exact ids.2 rfl

end StorageStack.Mydisk
