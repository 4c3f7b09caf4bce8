import StorageStack.Sfs.RemoveFile

/-!
# Freeing a file

The second part of `sfs_remove` walks over the frames of an inode. It reads the link of a frame after the frame
was freed, which is as good as before: freeing stores to the freemap only.
-/

namespace StorageStack.Sfs
open Lib

variable {s : State} {d : Image} {inodeBid : Nat} {fs : List Nat}

/-- The first part of `sfs_remove`: the inode leaves its directory. -/
def unlinkInode (s : State) (fdNum : Int) : Outcome (Nat × State) := do
  let fd := s.fdtable (← fdIndex fdNum)
  let dir := clearSlot (s.disk.read fd.dirBid) fd.inodeBid
  let dir ← setInodes dir fd.inodeBid 0
  .ok (fd.inodeBid, { s with disk := s.disk.write fd.dirBid dir })

/-- The second part: the frames with their contents are freed, and then the inode. -/
def freeFile (s : State) (inodeBid : Nat) : Outcome State := do
  let s ← freeFrames steps (firstFrame (s.disk.read inodeBid)) s
  sfsFreeBlock s inodeBid

theorem sfsRemove_eq (s : State) (fdNum : Int) :
    sfsRemove s fdNum = (do let (inodeBid, s) ← unlinkInode s fdNum; .ok (0, ← freeFile s inodeBid)) := by
  rw [sfsRemove, unlinkInode]
  cases fdIndex fdNum with
  | error e => rfl
  | ok slot =>
    rw [ok_bind, ok_bind]
    dsimp only
    cases setInodes (clearSlot (s.disk.read (s.fdtable slot).dirBid) (s.fdtable slot).inodeBid) (s.fdtable slot).inodeBid 0 with
    | error e => rfl
    | ok dir =>
      rw [ok_bind, ok_bind, ok_bind, freeFile]
      dsimp only
      cases freeFrames steps (firstFrame ((s.disk.write (s.fdtable slot).dirBid dir).read (s.fdtable slot).inodeBid))
        { s with disk := s.disk.write (s.fdtable slot).dirBid dir } with
      | error e => rfl
      | ok s₁ => rfl

/-- The frames of an inode, none of which is the superblock or the freemap. -/
structure FileAt (d : Image) (inodeBid : Nat) (fs : List Nat) : Prop where
  chain : Chain (frameNext d) (firstFrame (d.read inodeBid)) fs
  inode : 2 ≤ inodeBid ∧ inodeBid < 4096
  frames : ∀ f ∈ fs, 2 ≤ f ∧ f < 4096
  contents : ∀ f ∈ fs, ∀ j < SFS_FRAME_COUNT, content (d.read f) j ≠ 0 →
    2 ≤ content (d.read f) j ∧ content (d.read f) j < 4096

/-- The blocks that make up a file: the inode, the frames, and what their entries name. -/
def PartOf (d : Image) (inodeBid : Nat) (fs : List Nat) (b : Nat) : Prop :=
  b = inodeBid ∨ b ∈ fs ∨ ∃ f ∈ fs, ∃ j < SFS_FRAME_COUNT, content (d.read f) j = b ∧ b ≠ 0

theorem mem_blocksOf_iff {b : Nat} : b ∈ blocksOf d fs ++ [inodeBid] ↔ PartOf d inodeBid fs b := by
  rw [List.mem_append, List.mem_singleton, or_comm, PartOf]
  refine or_congr_right ⟨mem_blocksOf, fun either => ?_⟩
  rcases either with frame | ⟨f, member, j, hj, rfl, used⟩
  · exact blocksOf_frame frame
  · exact blocksOf_content member hj used

theorem FileAt.length_le (file : FileAt d inodeBid fs) : fs.length ≤ 4096 := by
  have inside : fs ⊆ List.range 4096 := fun f member => List.mem_range.mpr (file.frames f member).2
  simpa using (List.subperm_of_subset file.chain.nodup inside).length_le

theorem blocks_release (s : State) (b : Nat) {i : Nat} (other : i ≠ 1) : (s.release b).disk.blocks i = s.disk.blocks i := by
  rw [State.release, Image.write]
  exact if_neg other

theorem blocks_releaseAll (s : State) (gone : List Nat) {i : Nat} (other : i ≠ 1) :
    (s.releaseAll gone).disk.blocks i = s.disk.blocks i := by
  induction gone generalizing s with
  | nil => rfl
  | cons b gone ih => exact (ih (s.release b)).trans (blocks_release s b other)

/-- Every frame is visited once, exactly the bits of the file's blocks are cleared, and only the freemap changes.
Two ids of the file may be the same. -/
theorem freeing_exact (file : FileAt s.disk inodeBid fs) : ∃ s₁ s',
    freeFile s inodeBid = .ok s' ∧ (∀ s₀ fd, unlinkInode s₀ fd = .ok (inodeBid, s) → sfsRemove s₀ fd = .ok (0, s')) ∧
    Visited (firstFrame (s.disk.read inodeBid)) s fs s₁ ∧ fs.Nodup ∧ s'.freemap = s'.disk.read 1 ∧
    (∀ b < 4096, (s'.disk.read 1).bit b = true ↔ (s.disk.read 1).bit b = true ∧ ¬ PartOf s.disk inodeBid fs b) ∧
    ∀ i, i ≠ 1 → s'.disk.blocks i = s.disk.blocks i := by
  have visited := freeFrames_visits file.chain (fun _ _ _ => rfl)
    (fun f member => ⟨(file.frames f member).2, fun map => by have := (file.frames f member).1; omega⟩)
    (fun f member j hj => by
      by_cases used : content (s.disk.read f) j = 0
      · omega
      · exact (file.contents f member j hj used).2)
  have freed := (releaseAll_released s (blocksOf s.disk fs)).trans (release_released _ inodeBid)
  have run : freeFile s inodeBid = .ok ((s.releaseAll (blocksOf s.disk fs)).release inodeBid) := by
    rw [freeFile, visited.run (Nat.lt_of_le_of_lt file.length_le (by decide)), ok_bind, sfsFreeBlock_ok _ file.inode.2]
  refine ⟨_, _, run, fun s₀ fd unlinked => ?_, visited, file.chain.nodup, (read_release_map _ _).symm, fun b hb => ?_,
    fun i other => ?_⟩
  · rw [sfsRemove_eq, unlinked, ok_bind]
    dsimp only
    rw [run, ok_bind]
  · rw [freed.bits b hb, mem_blocksOf_iff]
  · rw [blocks_release _ _ other, blocks_releaseAll _ _ other]

/-! ### A file of one block -/

/-- Blocks 0 to 4 are in use, and 2, 3 and 4 are the file's inode, frame and content. -/
def threeBlocks : State :=
  { State.initial with disk :=
      ((Image.blank.write 1 (Bytes.zero.setWord 0 31)).write 2 (setFirstFrame .zero 3)).write 3 (setContent .zero 0 4) }

theorem threeBlocks_map : threeBlocks.disk.read 1 = Bytes.zero.setWord 0 31 := by
  rw [threeBlocks, Image.read_write_of_ne _ _ (by decide), Image.read_write_of_ne _ _ (by decide), Image.read_write]

theorem threeBlocks_inode : threeBlocks.disk.read 2 = setFirstFrame .zero 3 := by
  rw [threeBlocks, Image.read_write_of_ne _ _ (by decide), Image.read_write]

theorem threeBlocks_frame : threeBlocks.disk.read 3 = setContent .zero 0 4 := by
  rw [threeBlocks, Image.read_write]

theorem threeBlocks_content (j : Nat) : content (threeBlocks.disk.read 3) j = if j = 0 then 4 else 0 := by
  rw [threeBlocks_frame, content_setContent (by decide) (by decide), content, Bytes.word_zero]

theorem threeBlocks_at : FileAt threeBlocks.disk 2 [3] := by
  refine ⟨⟨?_, by decide, ?_⟩, by decide, fun f member => ?_, fun f member j _ used => ?_⟩
  · rw [threeBlocks_inode, firstFrame_setFirstFrame (by decide)]
  · show nextFrame (threeBlocks.disk.read 3) = 0
    rw [threeBlocks_frame, nextFrame_setContent, nextFrame, Bytes.word_zero]
  · obtain rfl := List.mem_singleton.mp member
    decide
  · obtain rfl := List.mem_singleton.mp member
    rw [threeBlocks_content] at used ⊢
    split at used
    case isTrue first => rw [if_pos first]; decide
    case isFalse => exact absurd rfl used

theorem threeBlocks_bit (b : Nat) : (threeBlocks.disk.read 1).bit b = true ↔ b < 5 := by
  rw [threeBlocks_map, Bytes.bit]
  by_cases first : b < 32
  · rw [Nat.div_eq_of_lt first, Nat.mod_eq_of_lt first, Bytes.word_setWord_self _ (by decide) (by decide)]
    revert b
    decide
  · rw [Bytes.word_setWord_of_ne _ (by omega), Bytes.word_zero, Nat.zero_testBit]
    exact iff_of_false Bool.false_ne_true (by omega)

theorem threeBlocks_partOf (b : Nat) : PartOf threeBlocks.disk 2 [3] b ↔ b = 2 ∨ b = 3 ∨ b = 4 := by
  rw [PartOf, List.mem_singleton]
  refine or_congr_right (or_congr_right ⟨fun ⟨f, member, j, _, same, used⟩ => ?_, ?_⟩)
  · obtain rfl := List.mem_singleton.mp member
    rw [threeBlocks_content] at same
    split at same
    · exact same.symm
    · exact absurd same.symm used
  · rintro rfl
    exact ⟨3, List.mem_singleton_self 3, 0, by decide, threeBlocks_content 0, by decide⟩

/-- The blocks of the file are free again, and the two before it are not. -/
theorem threeBlocks_freed : ∃ s₁ s', freeFile threeBlocks 2 = .ok s' ∧
    Visited (firstFrame (threeBlocks.disk.read 2)) threeBlocks [3] s₁ ∧
    (∀ b < 4096, (s'.disk.read 1).bit b = true ↔ b < 2) ∧ ∀ i, i ≠ 1 → s'.disk.blocks i = threeBlocks.disk.blocks i := by
  obtain ⟨s₁, s', run, -, visited, -, -, bits, kept⟩ := freeing_exact threeBlocks_at
  refine ⟨s₁, s', run, visited, fun b hb => ?_, kept⟩
  rw [bits b hb, threeBlocks_bit, threeBlocks_partOf]
  omega

end StorageStack.Sfs
