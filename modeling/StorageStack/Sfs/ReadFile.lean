import StorageStack.Sfs.FileWrite

/-!
# Reading a file

`sfs_read` first counts content blocks in a loop of its own, which only leaves a zero entry alone by never
moving on, then collects the blocks as a write does and copies block by block to the front of the buffer.
Collecting may attach blocks, so a read changes the image in the same way.
-/

namespace StorageStack.Sfs
open Lib CString

variable {own own' : Owners} {s s' : State} {fs : List Nat} {d : Image}

/-! ### Counting -/

theorem countEntries_ok {frame : Block} {numBlocks remaining contentBlk count : Nat} (few : count ≤ numBlocks)
    (named : ∀ j, contentBlk ≤ j → j < contentBlk + min (numBlocks - count) remaining → content frame j ≠ 0) :
    countEntries frame numBlocks remaining contentBlk count = .ok (count + min (numBlocks - count) remaining) := by
  induction remaining generalizing contentBlk count with
  | zero => rw [countEntries, Nat.min_zero, Nat.add_zero]
  | succ remaining ih =>
    rw [countEntries]
    by_cases more : count < numBlocks
    · rw [if_pos more, if_pos (named contentBlk (Nat.le_refl _) (by omega)),
        ih more fun j low high => named j (by omega) (by omega)]
      congr 1
      omega
    · rw [if_neg more, show numBlocks - count = 0 by omega, Nat.zero_min, Nat.add_zero]

theorem countBlocks_ok {numBlocks fuel frameBid contentBlk count : Nat} {numFrames : Int}
    (chain : Chain (frameNext d) frameBid fs) (start : contentBlk ≤ 127) (few : count ≤ numBlocks)
    (inside : contentBlk + (numBlocks - count) ≤ 127 * fs.length)
    (named : ∀ p, contentBlk ≤ p → p < contentBlk + (numBlocks - count) → entryAt d fs p ≠ 0)
    (enough : numBlocks - count + contentBlk / 127 < fuel) :
    countBlocks d numBlocks numFrames fuel frameBid contentBlk count = .ok numBlocks := by
  induction fs generalizing fuel frameBid contentBlk count with
  | nil =>
    obtain ⟨fuel, rfl⟩ := Nat.exists_eq_succ_of_ne_zero (by omega : fuel ≠ 0)
    simp only [List.length_nil] at inside
    obtain rfl : count = numBlocks := by omega
    rw [countBlocks, if_neg (Nat.lt_irrefl _)]
  | cons f fs ih =>
    obtain ⟨fuel, rfl⟩ := Nat.exists_eq_succ_of_ne_zero (by omega : fuel ≠ 0)
    obtain ⟨rfl, _, rest⟩ := chain
    by_cases more : count < numBlocks
    · have counted := @countEntries_ok (d.read f) numBlocks (SFS_FRAME_COUNT - contentBlk) contentBlk count few
        fun j low high => by
          have entry := named j low (by omega)
          rwa [entryAt_head (by unfold SFS_FRAME_COUNT at high; omega)] at entry
      have rounds : numBlocks - (count + min (numBlocks - count) (SFS_FRAME_COUNT - contentBlk)) + 0 / 127 < fuel := by
        unfold SFS_FRAME_COUNT
        omega
      have later := @ih fuel (nextFrame (d.read f)) 0 (count + min (numBlocks - count) (SFS_FRAME_COUNT - contentBlk)) rest
        (Nat.zero_le _) (by omega)
        (by
          unfold SFS_FRAME_COUNT
          simp only [List.length_cons] at inside
          omega)
        (fun p _ high => by
          have entry := named (127 + p) (by unfold SFS_FRAME_COUNT at high; omega) (by unfold SFS_FRAME_COUNT at high; omega)
          rwa [entryAt_tail] at entry)
        rounds
      rw [countBlocks, if_pos more]
      dsimp only
      rw [counted, ok_bind]
      split
      · -- The last frame can only be left with all blocks counted.
        rename_i last
        have none : fs = [] := (Chain.eq_nil_iff rest).mpr last.1
        subst none
        unfold SFS_FRAME_COUNT
        simp only [List.length_cons, List.length_nil] at inside
        congr 1
        omega
      · exact later
    · rw [countBlocks, if_neg more, show count = numBlocks by omega]

theorem countBlocks_late (numBlocks fuel frameBid count : Nat) (numFrames : Int) {contentBlk : Nat} (late : 127 ≤ contentBlk) :
    countBlocks d numBlocks numFrames fuel frameBid contentBlk count =
      countBlocks d numBlocks numFrames fuel frameBid (min contentBlk 127) count := by
  cases fuel with
  | zero => rfl
  | succ fuel =>
    have none : SFS_FRAME_COUNT - contentBlk = 0 := by unfold SFS_FRAME_COUNT; omega
    rw [countBlocks, countBlocks, none, show SFS_FRAME_COUNT - min contentBlk 127 = 0 by unfold SFS_FRAME_COUNT; omega]
    rfl

/-! ### Copying -/

theorem readLoop_ok {bids : List Nat} {remaining offset cur : Nat} {buf : List UInt8} (inBlock : offset < 512)
    (inside : remaining = 0 ∨ offset + remaining ≤ 512 * bids.length)
    (room : min remaining (512 - offset) ≤ buf.length ∧ min (remaining - (512 - offset)) 512 ≤ buf.length) :
    ∃ cur' buf', readLoop d bids remaining offset cur buf = .ok (cur', buf') ∧ buf'.length = buf.length := by
  induction bids generalizing remaining offset cur buf with
  | nil =>
    obtain rfl : remaining = 0 := by simp only [List.length_nil] at inside; omega
    exact ⟨cur, buf, rfl, rfl⟩
  | cons b bids ih =>
    cases remaining with
    | zero => exact ⟨cur, buf, rfl, rfl⟩
    | succ remaining =>
      have shape := @toCopy_cases offset (remaining + 1) inBlock
      have block : toCopy offset (remaining + 1) ≤ ((d.read b).toList.drop offset).length := by
        rw [List.length_drop, Bytes.length_toList]
        omega
      have copied := strncpy_ok block
      have size := length_strncpy copied
      rw [readLoop, copied, ok_bind, blit, if_pos (by omega), ok_bind]
      have kept := @length_overlay _ buf _ 0 (by rw [Nat.zero_add, size]; omega)
      obtain ⟨cur', buf', run, len⟩ := @ih (remaining + 1 - toCopy offset (remaining + 1)) 0
        (toU32 ((cur : Int) + (toCopy offset (remaining + 1) : Nat))) _ (by decide)
        (by
          simp only [List.length_cons] at inside
          omega)
        (by rw [kept]; omega)
      exact ⟨cur', buf', run, len.trans kept⟩

/-! ### The call -/

/-- What the counting loop finds: the blocks it looks for, or no block because the file ends with its first
frame and the cursor is behind it. -/
inductive Counts (d : Image) (entry : Fd) (buf : List UInt8) (length : Int) (fs : List Nat) : Prop
  | all (inside : min (entry.cur / 512) 127 + (numBids length).toNat ≤ 127 * fs.length)
      (named : ∀ p, min (entry.cur / 512) 127 ≤ p → p < min (entry.cur / 512) 127 + (numBids length).toNat →
        entryAt d fs p ≠ 0) (room : length ≤ buf.length)
  | none (beyond : 127 ≤ entry.cur / 512) (last : fs.length = 1) (frame : toU32 (entry.cur + length) / 65024 ≤ entry.cur / 65024)
      (nonneg : 0 ≤ length) (room : 512 - entry.cur % 512 ≤ buf.length)
      (more : numBids length = 1 ∨ 512 ≤ buf.length)

/-- The read stays inside the frames of the file, the free blocks, the array of ids, the buffer and the
positions. -/
structure ReadRoom (s : State) (entry : Fd) (buf : List UInt8) (length : Int) (fs : List Nat) : Prop where
  chain : FrameChain s.disk entry.inodeBid fs
  counts : Counts s.disk entry buf length fs
  inside : numBlocks entry.cur (toU32 length) = 0 ∨
    entry.cur / 512 % 127 + numBlocks entry.cur (toU32 length) ≤ 127 * fs.length
  free : holesAt s.disk fs (entry.cur / 512 % 127) (numBlocks entry.cur (toU32 length)) ≤ (s.disk.read 1).clearCount
  array : 0 < numBids length
  ids : numBlocks entry.cur (toU32 length) ≤ (numBids length).toNat
  position : entry.cur + length.toNat < 4294967296

theorem numBids_nonneg {length : Int} (nonneg : 0 ≤ length) : (numBids length).toNat = length.toNat / 512 + 1 := by
  unfold numBids
  rw [Int.tdiv_eq_ediv_of_nonneg nonneg]
  omega

theorem sfsRead_ok {fd : Int} {slot : Fin 32} {entry : Fd} {buf : List UInt8} {length : Int} (index : fdIndex fd = .ok slot)
    (here : s.fdtable slot = entry) (sound : Sound own s.disk) (loaded : nfreemapBlocks s.sb ≠ 0)
    (role : Owners.role own entry.inodeBid = some .inode) (room : ReadRoom s entry buf length fs) :
    ∃ r buf' own' s', sfsRead s fd buf length = .ok (r, buf', s') ∧
      Attached fs own s own' { s' with fdtable := s.fdtable } ∧ OtherFds slot s s' := by
  obtain ⟨own', s', run, attached, -⟩ := sfsGetFileContent_ok (numBids length).toNat slot entry.cur (toU32 length)
    sound loaded (by rw [here]) role room.chain room.inside room.free room.ids
  have table : s'.fdtable = s.fdtable := attached.grows.fdtable
  have array := room.array
  obtain ⟨count, remaining, counted, remains, fits, copies⟩ : ∃ count, ∃ remaining : Int,
      countBlocks s.disk (numBids length).toNat ((entry.cur / 65024 : Nat) - (toU32 (entry.cur + length) / 65024 : Nat) + 1)
        ((numBids length).toNat + 2) (firstFrame (s.disk.read entry.inodeBid)) (entry.cur / 512) 0 = .ok count ∧
      remaining = (if count < (numBids length).toNat then
        ((512 - entry.cur % 512 : Nat) : Int) + ((numBids length).toNat - 1 : Nat) * 512 else length) ∧
      (remaining.toNat = 0 ∨ entry.cur % 512 + remaining.toNat ≤ 512 * numBlocks entry.cur (toU32 length)) ∧
      (min remaining.toNat (512 - entry.cur % 512) ≤ buf.length ∧
        min (remaining.toNat - (512 - entry.cur % 512)) 512 ≤ buf.length) := by
    have position := room.position
    rcases room.counts with ⟨inside, named, space⟩ | ⟨beyond, last, frame, nonneg, space, more⟩
    · refine ⟨(numBids length).toNat, length, ?_, (if_neg (Nat.lt_irrefl _)).symm, ?_, by omega⟩
      · by_cases late : 127 ≤ entry.cur / 512
        · rw [countBlocks_late _ _ _ _ _ late]
          exact countBlocks_ok room.chain (Nat.min_le_right _ _) (Nat.zero_le _) inside named (by omega)
        · rw [Nat.min_eq_left (by omega)] at inside named
          exact countBlocks_ok room.chain (by omega) (Nat.zero_le _) inside named (by omega)
      · by_cases empty : length.toNat = 0
        · exact Or.inl empty
        · rw [numBlocks_eq (by omega) position]
          omega
    · have bids := numBids_nonneg nonneg
      have ids := room.ids
      rw [numBlocks_eq nonneg position] at ids ⊢
      refine ⟨0, _, ?_, rfl, ?_, ?_⟩
      · obtain ⟨f, rfl⟩ := List.length_eq_one_iff.mp last
        obtain ⟨same, _, ends⟩ := room.chain
        have ends : nextFrame (s.disk.read f) = 0 := ends
        have none : SFS_FRAME_COUNT - entry.cur / 512 = 0 := by unfold SFS_FRAME_COUNT; omega
        rw [countBlocks, if_pos (by omega), ← same]
        dsimp only
        rw [none, countEntries, ok_bind, if_pos ⟨ends, by omega⟩]
      · rw [if_pos (by omega)]
        omega
      · rw [if_pos (by omega)]
        omega
  obtain ⟨cur', buf', copied, -⟩ :=
    @readLoop_ok s'.disk ((List.range' (entry.cur / 512 % 127) (numBlocks entry.cur (toU32 length))).map
    (entryAt s'.disk fs)) remaining.toNat (entry.cur % 512) entry.cur buf (Nat.mod_lt _ (by decide))
    (by rw [List.length_map, List.length_range']; exact fits) copies
  refine ⟨if 0 < remaining then length else 0, buf', own', s'.setFd slot { s'.fdtable slot with cur := cur' }, ?_, ?_, ?_⟩
  · rw [sfsRead, index, ok_bind]
    dsimp only
    rw [if_pos array, here, counted, ok_bind, ← remains, run, ok_bind]
    dsimp only
    rw [copied, ok_bind]
  · exact ⟨attached.sound, attached.grows.setFdtable s.fdtable s.fdtable rfl, attached.next, attached.entry, attached.fresh⟩
  · refine ⟨fun i => ?_, fun i other => by rw [setFd_of_ne _ _ other, table]⟩
    by_cases same : i = slot
    · subst same
      rw [setFd_self, table]
      exact ⟨rfl, rfl, rfl⟩
    · rw [setFd_of_ne _ _ same, table]
      exact ⟨rfl, rfl, rfl⟩

end StorageStack.Sfs
