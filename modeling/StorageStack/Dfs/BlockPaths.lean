import StorageStack.Dfs.SfsStore

/-!
# Paths of blocks

Both stores build the path of a block by printing its id behind the name and a separator. The id is recovered from the
last separator, so no two blocks share a path. The plain files build it in a buffer with room for three digits.
-/

namespace StorageStack.Dfs
open Lib CString

variable {h h' : Host} {name : CString} {i : Int}

/-! ### The text of a path -/

/-- What `sprintf` stores: `ext.c` prints the working directory in front, `exta2.c` nothing. -/
def pathBytes (front filename : List UInt8) (blockId : Int) : List UInt8 := front ++ filename ++ blkInfix ++ decimal blockId

theorem getBlockFilePath_pathBytes {filename path : List UInt8} (run : getBlockFilePath h filename i = .ok path) :
    path = pathBytes h.workingDirectory.bytes filename i := by
  unfold getBlockFilePath at run
  dsimp only at run
  generalize (if i.tdiv 10 = 0 then 1 else 2) = blockIdLen at run
  split at run
  · exact (Except.ok.inj run).symm
  · cases run

theorem Exta2.getBlockFilePath_pathBytes {filename path : CString} (run : Exta2.getBlockFilePath filename i = .ok path) :
    path.bytes = pathBytes [] filename.bytes i := by
  unfold Exta2.getBlockFilePath at run
  dsimp only at run
  split at run
  · rw [← Except.ok.inj run]
    rfl
  · cases run

/-- Different names or ids have different paths behind any directory. -/
theorem pathBytes_inj {front filename filename' : List UInt8} {j : Int} (low : 0 ≤ i) (low' : 0 ≤ j)
    (same : pathBytes front filename i = pathBytes front filename' j) : filename = filename' ∧ i = j := by
  obtain ⟨k, rfl⟩ := Int.eq_ofNat_of_zero_le low
  obtain ⟨l, rfl⟩ := Int.eq_ofNat_of_zero_le low'
  unfold pathBytes at same
  simp only [List.append_assoc] at same
  have tails := List.append_cancel_left same
  simp only [← List.append_assoc] at tails
  obtain ⟨names, ids⟩ := name_decimal_inj tails
  exact ⟨names, congrArg _ ids⟩

/-! ### Writes -/

/-- A call of `ext_write_block`. -/
structure BlockWrite where
  filename : CString
  blockId : Int
  buf : Bytes DFS_BLOCK_SIZE

def BlockWrite.step (w : BlockWrite) (h : Host) : Outcome Host := extWriteBlock h w.filename.bytes w.blockId w.buf

/-- The calls are for other blocks. -/
def Others (name : CString) (i : Int) (writes : List BlockWrite) : Prop :=
  ∀ w ∈ writes, 0 ≤ w.blockId ∧ (w.filename.bytes, w.blockId) ≠ (name.bytes, i)

/-- The block can be read before and after the calls, and reads the same. -/
def Undisturbed (h : Host) (name : CString) (i : Int) (writes : List BlockWrite) : Prop :=
  ∀ buf, ∃ block h', extReadBlock h name.bytes i buf = .ok block ∧ runAll BlockWrite.step writes h = .ok h' ∧
    extReadBlock h' name.bytes i buf = .ok block

variable {w : BlockWrite} {writes : List BlockWrite}

theorem getBlockFilePath_int (h : Host) (filename : List UInt8) (low : 0 ≤ i) : getBlockFilePath h filename i =
    if i < 1000 then .ok (pathBytes h.workingDirectory.bytes filename i) else .error .undefined := by
  obtain ⟨k, rfl⟩ := Int.eq_ofNat_of_zero_le low
  rw [getBlockFilePath_nat]
  exact if_congr (by omega) rfl rfl

/-- The block is kept: the datanode has its directory, and the file of the block is as it was. -/
structure KeepsBlock (h : Host) (name : CString) (i : Int) (h' : Host) : Prop where
  directory : h'.workingDirectory = h.workingDirectory
  file : h'.files (pathBytes h.workingDirectory.bytes name.bytes i) = h.files (pathBytes h.workingDirectory.bytes name.bytes i)

theorem KeepsBlock.trans {h'' : Host} (first : KeepsBlock h name i h') (second : KeepsBlock h' name i h'') :
    KeepsBlock h name i h'' := by
  have file := second.file
  rw [first.directory] at file
  exact ⟨second.directory.trans first.directory, file.trans first.file⟩

theorem BlockWrite.step_ok (low : 0 ≤ i) (lowWrite : 0 ≤ w.blockId) (other : (w.filename.bytes, w.blockId) ≠ (name.bytes, i))
    (fits : w.blockId < 1000) (h : Host) : ∃ h', w.step h = .ok h' ∧ KeepsBlock h name i h' := by
  refine ⟨{ h with
    files := Function.update h.files (pathBytes h.workingDirectory.bytes w.filename.bytes w.blockId) (some w.buf.toList) },
    ?_, rfl, Function.update_of_ne (fun same => other ?_) ..⟩
  · rw [step, extWriteBlock, getBlockFilePath_int h _ lowWrite, if_pos fits]
    rfl
  · obtain ⟨names, ids⟩ := pathBytes_inj low lowWrite same
    rw [names, ids]

theorem BlockWrite.step_long (lowWrite : 0 ≤ w.blockId) (long : ¬ w.blockId < 1000) (h : Host) :
    w.step h = .error .undefined := by
  rw [step, extWriteBlock, getBlockFilePath_int h _ lowWrite, if_neg long]
  rfl

theorem runAll_writes (low : 0 ≤ i) (others : Others name i writes) (fit : ∀ w ∈ writes, w.blockId < 1000) (h : Host) :
    ∃ h', runAll BlockWrite.step writes h = .ok h' ∧ KeepsBlock h name i h' := by
  induction writes generalizing h with
  | nil => exact ⟨h, rfl, rfl, rfl⟩
  | cons w writes ih =>
    obtain ⟨⟨lowWrite, other⟩, others⟩ := List.forall_mem_cons.mp others
    obtain ⟨short, fit⟩ := List.forall_mem_cons.mp fit
    obtain ⟨h₁, here, first⟩ := BlockWrite.step_ok low lowWrite other short h
    obtain ⟨h', rest, second⟩ := ih others fit h₁
    exact ⟨h', by rw [runAll, here, ok_bind, rest], first.trans second⟩

/-- A run that returns has printed no id of more than three digits. -/
theorem fit_of_runAll (lows : ∀ w ∈ writes, 0 ≤ w.blockId) (run : runAll BlockWrite.step writes h = .ok h') :
    ∀ w ∈ writes, w.blockId < 1000 := by
  induction writes generalizing h with
  | nil => exact fun w member => absurd member List.not_mem_nil
  | cons w writes ih =>
    obtain ⟨lowWrite, lows⟩ := List.forall_mem_cons.mp lows
    obtain ⟨h₁, here, rest⟩ := bind_ok run
    refine List.forall_mem_cons.mpr ⟨?_, ih lows rest⟩
    by_contra long
    rw [BlockWrite.step_long lowWrite long] at here
    cases here

/-! ### Reads -/

theorem extReadBlock_some {bytes : List UInt8} (low : 0 ≤ i) (fits : i < 1000)
    (stored : h.files (pathBytes h.workingDirectory.bytes name.bytes i) = some bytes) (buf : Bytes DFS_BLOCK_SIZE) :
    extReadBlock h name.bytes i buf = .ok (buf.patch 0 (bytes.take DFS_BLOCK_SIZE)) := by
  rw [extReadBlock, getBlockFilePath_int h _ low, if_pos fits, ok_bind, stored]

theorem fits_of_extReadBlock {buf block : Bytes DFS_BLOCK_SIZE} (low : 0 ≤ i)
    (run : extReadBlock h name.bytes i buf = .ok block) : i < 1000 := by
  by_contra long
  rw [extReadBlock, getBlockFilePath_int h _ low, if_neg long] at run
  cases run

/-- No other block gets the path of a block: the texts differ behind any directory, and so do the paths of both stores. -/
structure OwnPath (name : CString) (i : Int) : Prop where
  text : ∀ (front : List UInt8) (filename : CString) (j : Int), 0 ≤ j →
    pathBytes front filename.bytes j = pathBytes front name.bytes i → filename.bytes = name.bytes ∧ j = i
  plain : ∀ (h : Host) (filename : CString) (j : Int) (path : List UInt8), 0 ≤ j →
    getBlockFilePath h filename.bytes j = .ok path → getBlockFilePath h name.bytes i = .ok path →
      filename.bytes = name.bytes ∧ j = i
  sfs : ∀ (filename : CString) (j : Int) (path : CString), 0 ≤ j →
    Exta2.getBlockFilePath filename j = .ok path → Exta2.getBlockFilePath name i = .ok path →
      filename.bytes = name.bytes ∧ j = i

theorem ownPath (low : 0 ≤ i) : OwnPath name i where
  text _ _ _ low' same := pathBytes_inj low' low same
  plain _ _ _ _ low' run run' :=
    pathBytes_inj low' low ((getBlockFilePath_pathBytes run).symm.trans (getBlockFilePath_pathBytes run'))
  sfs _ _ _ low' run run' :=
    pathBytes_inj low' low ((Exta2.getBlockFilePath_pathBytes run).symm.trans (Exta2.getBlockFilePath_pathBytes run'))

/-- No other block has the path of a block. Writes for other blocks leave what is read of it exactly when no id needs more
room than the buffers of the paths have. -/
theorem paths_apart_iff (low : 0 ≤ i) (stored : h.files (pathBytes h.workingDirectory.bytes name.bytes i) ≠ none)
    (others : Others name i writes) :
    OwnPath name i ∧ (Undisturbed h name i writes ↔ i < 1000 ∧ ∀ w ∈ writes, w.blockId < 1000) := by
  refine ⟨ownPath low, fun undisturbed => ?_, fun ⟨fits, fit⟩ buf => ?_⟩
  · obtain ⟨block, h', read, run, -⟩ := undisturbed .zero
    exact ⟨fits_of_extReadBlock low read, fit_of_runAll (fun w member => (others w member).1) run⟩
  · obtain ⟨bytes, held⟩ := Option.ne_none_iff_exists'.mp stored
    obtain ⟨h', run, kept⟩ := runAll_writes low others fit h
    have file := kept.file.trans held
    rw [← kept.directory] at file
    exact ⟨_, h', extReadBlock_some low fits held buf, run, extReadBlock_some low fits file buf⟩

def fileF : CString := ⟨[102], letter_nonzero⟩

/-- A datanode that has block 0 of the file `f`. -/
def storesF : Host :=
  { emptyHosts ⟨[], 0⟩ with files := Function.update (fun _ => none) (pathBytes [] [102] 0) (some (List.replicate 1024 1)) }

theorem storesF_stored : storesF.files (pathBytes storesF.workingDirectory.bytes fileF.bytes 0) ≠ none := by
  show Function.update (fun _ => none) (pathBytes [] [102] 0) (some (List.replicate 1024 1)) (pathBytes [] [102] 0) ≠ none
  rw [Function.update_self]
  exact Option.some_ne_none _

/-- A write for block 999 of the file. -/
theorem three_digits_apart : Undisturbed storesF fileF 0 [⟨fileF, 999, .zero⟩] := by
  have others : Others fileF 0 [⟨fileF, 999, .zero⟩] := by
    intro w member
    obtain rfl := List.mem_singleton.mp member
    exact ⟨by decide, by decide⟩
  refine (paths_apart_iff (by decide) storesF_stored others).2.mpr ⟨by decide, fun w member => ?_⟩
  obtain rfl := List.mem_singleton.mp member
  decide

/-- The path of block 1000 does not fit its buffer. -/
theorem four_digits_overrun : ¬ ∀ (h : Host) (name : CString) (i : Int) (writes : List BlockWrite), 0 ≤ i →
    h.files (pathBytes h.workingDirectory.bytes name.bytes i) ≠ none → Others name i writes → Undisturbed h name i writes := by
  intro claim
  have others : Others fileF 0 [⟨fileF, 1000, .zero⟩] := by
    intro w member
    obtain rfl := List.mem_singleton.mp member
    exact ⟨by decide, by decide⟩
  obtain ⟨block, h', -, run, -⟩ := claim storesF fileF 0 [⟨fileF, 1000, .zero⟩] (by decide) storesF_stored others .zero
  rw [runAll, BlockWrite.step_long (by decide) (by decide)] at run
  cases run

end StorageStack.Dfs
