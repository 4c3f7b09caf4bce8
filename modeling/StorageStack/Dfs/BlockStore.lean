import Mathlib.Data.List.Forall2
import StorageStack.Dfs.Transfer

/-!
# Stores of blocks

A datanode keeps its blocks through `ext_write_block` and `ext_read_block`, which have two implementations.
What they are for is a memory that holds the latest block of every file name and block id. The plain files
of `ext.c` answer every read as this memory does.
-/

namespace StorageStack.Dfs
open Lib CString

/-- A call of a store. `tempDir` and `inode` are what uninitialised locals of an implementation hold. -/
inductive StoreCall where
  | write (tempDir inode : Bytes 512) (filename : CString) (blockId : Int) (buf : Bytes DFS_BLOCK_SIZE)
  | read (inode : Bytes 512) (filename : CString) (blockId : Int) (buf : Bytes DFS_BLOCK_SIZE)

namespace StoreCall

def filename : StoreCall → CString
  | write _ _ filename _ _ => filename
  | read _ filename _ _ => filename

def blockId : StoreCall → Int
  | write _ _ _ blockId _ => blockId
  | read _ _ blockId _ => blockId

def key (c : StoreCall) : List UInt8 × Int := (c.filename.bytes, c.blockId)

def IsRead : StoreCall → Prop
  | write .. => False
  | read .. => True

/-- The same call, whatever uninitialised locals and the buffer of a read hold. -/
inductive Alike : StoreCall → StoreCall → Prop
  | write (tempDir inode tempDir' inode' : Bytes 512) (filename : CString) (blockId : Int) (buf : Bytes DFS_BLOCK_SIZE) :
      Alike (write tempDir inode filename blockId buf) (write tempDir' inode' filename blockId buf)
  | read (inode inode' : Bytes 512) (filename : CString) (blockId : Int) (buf buf' : Bytes DFS_BLOCK_SIZE) :
      Alike (read inode filename blockId buf) (read inode' filename blockId buf')

end StoreCall

/-! ### The reference -/

abbrev Memory := List UInt8 × Int → Option (Bytes DFS_BLOCK_SIZE)

def StoreCall.onMemory : StoreCall → Memory → Outcome (List (List UInt8) × Memory)
  | write _ _ filename blockId buf, m => .ok ([], Function.update m (filename.bytes, blockId) (some buf))
  | read _ filename blockId _, m =>
    match m (filename.bytes, blockId) with
    | some block => .ok ([block.toList], m)
    | none => .error .undefined

/-- Names and ids as the namenode hands them out; what is read was written before. -/
def StoreCall.Proper (c : StoreCall) (m : Memory) : Prop :=
  c.filename.bytes.length ≤ 255 ∧ 0 ≤ c.blockId ∧ c.blockId < MAX_FILE_BLK_COUNT ∧ (c.IsRead → m c.key ≠ none)

/-- A sequence of proper calls on a store that is empty at first. -/
def ProperCalls (calls : List StoreCall) : Prop :=
  Meets (stateAfter StoreCall.onMemory) StoreCall.Proper calls fun _ => none

variable {c c' : StoreCall} {calls calls' : List StoreCall} {m : Memory} {h : Host}

theorem StoreCall.Alike.onMemory (alike : c.Alike c') : c'.onMemory m = c.onMemory m := by
  cases alike with
  | write => rfl
  | read => rfl

theorem StoreCall.Alike.proper (alike : c.Alike c') (proper : c.Proper m) : c'.Proper m := by
  cases alike with
  | write => exact proper
  | read => exact proper

theorem ProperCalls.alike (proper : ProperCalls calls)
    (alike : List.Forall₂ StoreCall.Alike calls calls') : ProperCalls calls' := by
  unfold ProperCalls at proper ⊢
  generalize (fun _ => none : Memory) = m at proper ⊢
  induction alike generalizing m with
  | nil => exact proper
  | cons same _ ih =>
    refine ⟨same.proper proper.1, fun m' step => ih m' (proper.2 m' ?_)⟩
    rw [stateAfter, ← same.onMemory]
    exact step

theorem answers_alike (alike : List.Forall₂ StoreCall.Alike calls calls') (m : Memory) :
    answers StoreCall.onMemory calls' m = answers StoreCall.onMemory calls m := by
  induction alike generalizing m with
  | nil => rfl
  | cons same _ ih =>
    rw [answers, answers, same.onMemory]
    apply bind_congr
    intro p
    dsimp only
    rw [ih]

/-! ### Plain files -/

def StoreCall.onFiles : StoreCall → Host → Outcome (List (List UInt8) × Host)
  | write _ _ filename blockId buf, h => do .ok ([], ← extWriteBlock h filename.bytes blockId buf)
  | read _ filename blockId buf, h => do .ok ([(← extReadBlock h filename.bytes blockId buf).toList], h)

/-- The file of every block that was written holds it. -/
def Mirrors (h : Host) (m : Memory) : Prop := ∀ name blockId block, m (name, blockId) = some block →
  0 ≤ blockId ∧ h.files (blockPath h name blockId.toNat) = some block.toList

theorem getBlockFilePath_eq (h : Host) (name : List UInt8) {blockId : Int} (low : 0 ≤ blockId)
    (high : blockId < MAX_FILE_BLK_COUNT) :
    getBlockFilePath h name blockId = .ok (blockPath h name blockId.toNat) := by
  obtain ⟨k, rfl⟩ := Int.eq_ofNat_of_zero_le low
  have small : (k : Int) < 100 := high
  exact getBlockFilePath_ok h name (by omega)

theorem onFiles_ok (stored : Mirrors h m) (proper : c.Proper m) :
    ∃ a h' m', c.onFiles h = .ok (a, h') ∧ c.onMemory m = .ok (a, m') ∧ Mirrors h' m' := by
  obtain ⟨-, low, high, known⟩ := proper
  cases c with
  | write tempDir inode filename blockId buf =>
    have path : getBlockFilePath h filename.bytes blockId = _ := getBlockFilePath_eq h filename.bytes low high
    refine ⟨[], { h with files := Function.update h.files (blockPath h filename.bytes blockId.toNat) (some buf.toList) }, _, ?_,
      rfl, ?_⟩
    · rw [StoreCall.onFiles, extWriteBlock, path]
      rfl
    · intro name j block held
      by_cases here : (name, j) = (filename.bytes, blockId)
      · obtain ⟨rfl, rfl⟩ := Prod.mk.inj here
        rw [Function.update_self] at held
        obtain rfl := Option.some.inj held
        exact ⟨low, Function.update_self ..⟩
      · rw [Function.update_of_ne here] at held
        obtain ⟨nonneg, file⟩ := stored name j block held
        refine ⟨nonneg, (Function.update_of_ne (fun same => here ?_) ..).trans file⟩
        obtain ⟨rfl, ids⟩ := blockPath_inj same
        have low' : 0 ≤ blockId := low
        rw [show j = blockId by omega]
  | read inode filename blockId buf =>
    have path : getBlockFilePath h filename.bytes blockId = _ := getBlockFilePath_eq h filename.bytes low high
    obtain ⟨block, held⟩ := Option.ne_none_iff_exists'.mp (known trivial)
    obtain ⟨-, file⟩ := stored filename.bytes blockId block held
    refine ⟨[block.toList], h, m, ?_, ?_, stored⟩
    · rw [StoreCall.onFiles, extReadBlock, path, ok_bind, file]
      have whole : block.toList.take DFS_BLOCK_SIZE = block.toList := List.take_of_length_le (by rw [Bytes.length_toList])
      dsimp only
      rw [whole, Bytes.patch_toList, ok_bind]
    · rw [StoreCall.onMemory, show m (filename.bytes, blockId) = some block from held]

/-- The plain files return the latest block of every name and id. -/
theorem files_latest (h : Host) (proper : ProperCalls calls) :
    ∃ blocks, answers StoreCall.onFiles calls h = .ok blocks ∧ answers StoreCall.onMemory calls (fun _ => none) = .ok blocks := by
  have start : Mirrors h fun _ => none := by
    intro name blockId block held
    cases held
  exact answers_simulate Mirrors (fun c h m mirrors proper => onFiles_ok (c := c) mirrors proper) start proper

end StorageStack.Dfs
