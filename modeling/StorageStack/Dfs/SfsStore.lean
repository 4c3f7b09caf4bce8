import StorageStack.Dfs.BlockStore
import StorageStack.Sfs.DirectoryList

/-!
# Blocks in the file system

The store of `exta2.c` keeps every block in a file of the file system of `fs.c`. Reading copies each block of
the image to the front of the buffer, so the second half of the buffer keeps what it held: no read returns what
the plain files return whatever the buffer held before.
-/

namespace StorageStack.Dfs.Exta2
open Lib CString Sfs

/-! ### `exta2.c` -/

theorem decimal_nonzero (i : Int) : ∀ c ∈ decimal i, c ≠ 0 := by
  intro c member zero
  unfold decimal at member
  have digits : ∀ c ∈ (Nat.digits 10 i.natAbs).reverse.map fun d => UInt8.ofNat (48 + d), c ≠ 0 := by
    intro c member zero
    obtain ⟨d, digit, rfl⟩ := List.mem_map.mp member
    have small : d < 10 := Nat.digits_lt_base (by decide) (List.mem_reverse.mp digit)
    have value := congrArg UInt8.toNat zero
    rw [UInt8.toNat_ofNat'] at value
    have none : (0 : UInt8).toNat = 0 := rfl
    omega
  dsimp only at member
  split at member
  · obtain rfl := List.mem_singleton.mp member
    cases zero
  · split at member
    · rcases List.mem_cons.mp member with rfl | member
      · cases zero
      · exact digits c member zero
    · exact digits c member zero

theorem blkInfix_nonzero : ∀ c ∈ blkInfix, c ≠ 0 := by
  simp [blkInfix]

/-- The name of a block's file, in a buffer that has room for ids of one digit. -/
def getBlockFilePath (filename : CString) (blockId : Int) : Outcome CString :=
  let path : CString := ⟨filename.bytes ++ blkInfix ++ decimal blockId, by
    intro c member
    rcases List.mem_append.mp member with front | digits
    · rcases List.mem_append.mp front with name | separator
      · exact filename.nonzero c name
      · exact blkInfix_nonzero c separator
    · exact decimal_nonzero blockId c digits⟩
  if path.bytes.length + 1 ≤ filename.bytes.length + 7 then .ok path else .error .undefined

/-- `sfs_init_storage` opens an empty image file; `image` is what reading it finds where nothing was written. -/
def sfsInitStorage (s : State) (image : Image) : State := { s with disk := image }

def extInitLocalFs (s : State) (image : Image) : State := sfsMkfs (sfsInitStorage s image)

/-- Neither the descriptor nor the number of bytes is looked at. -/
def extReadBlock (s : State) (inode : Block) (filename : CString) (blockId : Int) (buf : Bytes DFS_BLOCK_SIZE) :
    Outcome (List UInt8 × State) := do
  let blkPath ← getBlockFilePath filename blockId
  let (fd, s) ← sfsOpen s inode slash blkPath
  let (_, buf, s) ← sfsRead s fd buf.toList DFS_BLOCK_SIZE
  let (_, s) ← sfsClose s fd
  .ok (buf, s)

def extWriteBlock (s : State) (tempDir inode : Block) (filename : CString) (blockId : Int) (buf : Bytes DFS_BLOCK_SIZE) :
    Outcome State := do
  let blkPath ← getBlockFilePath filename blockId
  let (_, s) ← sfsMkdir s tempDir slash
  let (fd, s) ← sfsOpen s inode slash blkPath
  let (_, s) ← sfsWrite s fd buf.toList DFS_BLOCK_SIZE
  let (_, s) ← sfsClose (sfsPrintInfo s) fd
  .ok s

def onSfs : StoreCall → State → Outcome (List (List UInt8) × State)
  | .write tempDir inode filename blockId buf, s => do .ok ([], ← extWriteBlock s tempDir inode filename blockId buf)
  | .read inode filename blockId buf, s => do
    let (buf, s) ← extReadBlock s inode filename blockId buf
    .ok ([buf], s)

/-! ### What a read leaves of its buffer -/

theorem toCopy_le_block (offset remaining : Nat) : toCopy offset remaining ≤ 512 := by
  unfold toCopy
  split
  · split <;> omega
  · split <;> omega

theorem readLoop_behind {d : Image} {bids : List Nat} {remaining offset cur cur' : Nat} {buf buf' : List UInt8}
    (run : readLoop d bids remaining offset cur buf = .ok (cur', buf')) : buf'.drop 512 = buf.drop 512 := by
  induction bids generalizing remaining offset cur buf with
  | nil =>
    cases remaining with
    | zero =>
      obtain ⟨-, rfl⟩ := Prod.mk.inj (Except.ok.inj run)
      rfl
    | succ remaining => cases run
  | cons bid bids ih =>
    cases remaining with
    | zero =>
      obtain ⟨-, rfl⟩ := Prod.mk.inj (Except.ok.inj run)
      rfl
    | succ remaining =>
      rw [readLoop] at run
      obtain ⟨src, copied, run⟩ := bind_ok run
      obtain ⟨buf₁, stored, run⟩ := bind_ok run
      rw [ih run]
      exact drop_blit stored ((length_strncpy copied).le.trans (toCopy_le_block _ _))

theorem sfsRead_behind {s s' : State} {fd length r : Int} {buf buf' : List UInt8}
    (run : sfsRead s fd buf length = .ok (r, buf', s')) : buf'.drop 512 = buf.drop 512 := by
  unfold sfsRead at run
  obtain ⟨slot, -, run⟩ := bind_ok run
  dsimp only at run
  split at run
  · obtain ⟨count, -, run⟩ := bind_ok run
    obtain ⟨⟨bids, s₁⟩, -, run⟩ := bind_ok run
    obtain ⟨⟨cur, buf₁⟩, copied, run⟩ := bind_ok run
    have same : buf₁ = buf' := congrArg (fun answer => answer.2.1) (Except.ok.inj run)
    rw [← same]
    exact readLoop_behind copied
  · cases run

theorem onSfs_read {s s' : State} {inode : Block} {filename : CString} {blockId : Int} {buf : Bytes DFS_BLOCK_SIZE}
    {blocks : List (List UInt8)} (run : onSfs (.read inode filename blockId buf) s = .ok (blocks, s')) :
    ∃ block, blocks = [block] ∧ block.drop 512 = buf.toList.drop 512 := by
  obtain ⟨⟨block, s₁⟩, reads, same⟩ := bind_ok run
  obtain ⟨path, -, reads⟩ := bind_ok reads
  obtain ⟨⟨fd, s₂⟩, -, reads⟩ := bind_ok reads
  obtain ⟨⟨r, bytes, s₃⟩, copied, reads⟩ := bind_ok reads
  obtain ⟨⟨r', s₄⟩, -, closed⟩ := bind_ok reads
  obtain rfl : bytes = block := congrArg Prod.fst (Except.ok.inj closed)
  exact ⟨bytes, (congrArg Prod.fst (Except.ok.inj same)).symm, sfsRead_behind copied⟩

/-! ### The two stores -/

/-- Whatever uninitialised locals and the buffers of reads hold, up to every read both stores answer the same. -/
def Agree (s : State) (image : Image) (h : Host) (calls : List StoreCall) : Prop :=
  ∀ calls', List.Forall₂ StoreCall.Alike calls calls' → ∀ front c, front ++ [c] <+: calls' → c.IsRead →
    ∃ blocks, answers onSfs (front ++ [c]) (extInitLocalFs s image) = .ok blocks ∧
      answers StoreCall.onFiles (front ++ [c]) h = .ok blocks

/-- The same call with the buffer of a read filled with one byte. -/
def refill (v : UInt8) : StoreCall → StoreCall
  | .write tempDir inode filename blockId buf => .write tempDir inode filename blockId buf
  | .read inode filename blockId _ => .read inode filename blockId ⟨fun _ => v⟩

theorem alike_refill (v : UInt8) (calls : List StoreCall) : List.Forall₂ StoreCall.Alike calls (calls.map (refill v)) := by
  rw [List.forall₂_map_right_iff, List.forall₂_same]
  intro c _
  cases c with
  | write => exact .write ..
  | read => exact .read ..

theorem writes_alike {calls calls' : List StoreCall} (alike : List.Forall₂ StoreCall.Alike calls calls')
    (writes : ∀ c ∈ calls, ¬ c.IsRead) : ∀ c ∈ calls', ¬ c.IsRead := by
  induction alike with
  | nil => exact writes
  | cons same _ ih =>
    obtain ⟨here, rest⟩ := List.forall_mem_cons.mp writes
    refine List.forall_mem_cons.mpr ⟨?_, ih rest⟩
    cases same with
    | write => exact here
    | read => exact here

/-- With a filled buffer a read answers a block that ends with the byte. -/
theorem answers_refill {s : State} {image : Image} {h : Host} {front calls : List StoreCall} {c : StoreCall} (v : UInt8)
    (proper : ProperCalls (front ++ [c])) (whole : front ++ [c] <+: calls) (reads : c.IsRead) (agree : Agree s image h calls) :
    ∃ others block, answers StoreCall.onMemory (front ++ [c]) (fun _ => none) = .ok (others ++ [block]) ∧
      block.drop 512 = List.replicate 512 v := by
  have here : (front ++ [c]).map (refill v) = front.map (refill v) ++ [refill v c] := List.map_append
  have reads' : (refill v c).IsRead := by
    cases c with
    | write => exact reads
    | read => exact reads
  obtain ⟨blocks, onImage, onFiles⟩ := agree _ (alike_refill v calls) (front.map (refill v)) (refill v c)
    (here ▸ whole.map (refill v)) reads'
  rw [← here] at onFiles
  obtain ⟨blocks', files, memory⟩ := files_latest h (proper.alike (alike_refill v _))
  obtain rfl := Except.ok.inj (onFiles.symm.trans files)
  rw [answers_alike (alike_refill v _)] at memory
  obtain ⟨others, last, s₁, s', run, rfl⟩ := answers_last onImage
  cases c with
  | write => exact reads.elim
  | read inode filename blockId buf =>
    obtain ⟨block, rfl, behind⟩ := onSfs_read run
    refine ⟨others, block, memory, behind.trans ?_⟩
    rw [Bytes.toList_fill, List.drop_replicate, show DFS_BLOCK_SIZE - 512 = 512 from rfl]

theorem writes_of_agree {s : State} {image : Image} {h : Host} {calls : List StoreCall} (proper : ProperCalls calls)
    (agree : Agree s image h calls) : ∀ c ∈ calls, ¬ c.IsRead := by
  intro c member reads
  obtain ⟨front, back, rfl⟩ := List.append_of_mem member
  have whole : front ++ [c] <+: front ++ c :: back := ⟨back, by simp⟩
  have first : ProperCalls (front ++ [c]) := by
    rw [show front ++ c :: back = (front ++ [c]) ++ back by simp] at proper
    exact proper.front
  -- a reference answers one block, the file system one for every byte the buffer is filled with
  obtain ⟨others, block, memory, zeros⟩ := answers_refill 0 first whole reads agree
  obtain ⟨others', block', memory', ones⟩ := answers_refill 1 first whole reads agree
  obtain ⟨-, same⟩ := List.append_inj' (Except.ok.inj (memory.symm.trans memory')) rfl
  rw [(List.cons.inj same).1, ones] at zeros
  exact absurd zeros (by decide)

/-- The plain files return the latest block that was written under the name and the id. The file system agrees with
them if and only if nothing is read. -/
theorem stores_agree_iff (s : State) (image : Image) (h : Host) {calls : List StoreCall} (proper : ProperCalls calls) :
    (∃ blocks, answers StoreCall.onFiles calls h = .ok blocks ∧ answers StoreCall.onMemory calls (fun _ => none) = .ok blocks) ∧
      (Agree s image h calls ↔ ∀ c ∈ calls, ¬ c.IsRead) := by
  refine ⟨files_latest h proper, writes_of_agree proper, ?_⟩
  intro writes calls' alike front c whole reads
  have member : c ∈ calls' := whole.subset (List.mem_append_right front (List.mem_singleton_self c))
  exact absurd reads (writes_alike alike writes c member)

def writeRead : List StoreCall := [.write .zero .zero slash 0 ⟨fun _ => 1⟩, .read .zero slash 0 .zero]

theorem writeRead_proper : ProperCalls writeRead := by
  refine ⟨⟨by decide, by decide, by decide, fun reads => reads.elim⟩, fun m written => ?_⟩
  rw [← Except.ok.inj written]
  refine ⟨⟨by decide, by decide, by decide, fun _ => ?_⟩, fun _ _ => trivial⟩
  dsimp only [StoreCall.key, StoreCall.filename, StoreCall.blockId]
  rw [Function.update_self]
  exact Option.some_ne_none _

theorem writeRead_agree_iff :
    (∃ blocks, answers StoreCall.onFiles writeRead (emptyHosts ⟨[], 0⟩) = .ok blocks ∧
        answers StoreCall.onMemory writeRead (fun _ => none) = .ok blocks) ∧
      (Agree .initial .blank (emptyHosts ⟨[], 0⟩) writeRead ↔ ∀ c ∈ writeRead, ¬ c.IsRead) :=
  stores_agree_iff .initial .blank (emptyHosts ⟨[], 0⟩) writeRead_proper

/-- The block of ones that was written comes back from the plain files only. -/
theorem writeRead_disagrees : ProperCalls writeRead ∧
    answers StoreCall.onFiles writeRead (emptyHosts ⟨[], 0⟩) = .ok [List.replicate 1024 1] ∧
    answers onSfs writeRead (extInitLocalFs .initial .blank) ≠ .ok [List.replicate 1024 1] ∧
    ¬ Agree .initial .blank (emptyHosts ⟨[], 0⟩) writeRead := by
  refine ⟨writeRead_proper, ?_, ?_, ?_⟩
  · obtain ⟨blocks, files, memory⟩ := files_latest (emptyHosts ⟨[], 0⟩) writeRead_proper
    have latest : answers StoreCall.onMemory writeRead (fun _ => none) = .ok [(⟨fun _ => 1⟩ : Bytes DFS_BLOCK_SIZE).toList] := by
      simp [writeRead, answers, StoreCall.onMemory, ok_bind]
    rw [Bytes.toList_fill] at latest
    rw [files, ← memory]
    exact latest
  · intro run
    change answers onSfs ([StoreCall.write .zero .zero slash 0 ⟨fun _ => 1⟩] ++ [.read .zero slash 0 .zero]) _ = _ at run
    obtain ⟨front, a, s₁, s', last, blocks⟩ := answers_last run
    obtain ⟨block, rfl, behind⟩ := onSfs_read last
    have same : [List.replicate 1024 (1 : UInt8)] = [block] := (List.append_inj' ((List.nil_append _).trans blocks) rfl).2
    rw [← (List.cons.inj same).1, Bytes.zero, Bytes.toList_fill, List.drop_replicate, List.drop_replicate] at behind
    exact absurd behind (by decide)
  · intro agree
    exact writes_of_agree writeRead_proper agree (.read .zero slash 0 .zero)
      (List.mem_cons_of_mem _ (List.mem_singleton_self _)) trivial

end StorageStack.Dfs.Exta2
