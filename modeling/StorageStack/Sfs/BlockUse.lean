import StorageStack.Sfs.Calls
import StorageStack.Sfs.Contents
import StorageStack.Sfs.FreeFile

/-!
# What blocks are used for

A call takes ids for directories, inodes, frames and content blocks: ids that a link, a slot or a descriptor
holds, and ids that `sfs_alloc_block` just returned. `Call.Uses` follows the code to each of them, and some of
its loops do not look for 0. Only a read that nothing looks at, as the one in `sfs_mkdir` before the test for an
empty list, is no use. A fine call through live descriptors only uses blocks from 2 on.
-/

namespace StorageStack.Sfs
open Lib CString Chain

/-! ### The loops -/

/-- `sfs_resize_file` links and fills frames. -/
inductive GrowUses : (missing frameBid : Nat) → State → Kind → Nat → Prop
  | link {missing frameBid : Nat} {s : State} : GrowUses (missing + 1) frameBid s .frame frameBid
  | new {missing frameBid newFrameBid : Nat} {s s' : State} (grown : growFrame s frameBid = .ok (newFrameBid, s')) :
      GrowUses (missing + 1) frameBid s .frame newFrameBid
  | fill {missing frameBid newFrameBid j : Nat} {s s' : State} (grown : growFrame s frameBid = .ok (newFrameBid, s'))
      (hj : j < SFS_FRAME_COUNT) : GrowUses (missing + 1) frameBid s .data (content (s'.disk.read newFrameBid) j)
  | later {missing frameBid newFrameBid : Nat} {s s' : State} {k : Kind} {b : Nat}
      (grown : growFrame s frameBid = .ok (newFrameBid, s')) (rest : GrowUses missing newFrameBid s' k b) :
      GrowUses (missing + 1) frameBid s k b

/-- The scan of `sfs_read` comes to frame `b`. -/
inductive Scanned (d : Image) (numBlocks : Nat) (numFrames : Int) : (frameBid contentBlk count b : Nat) → Prop
  | here {frameBid contentBlk count : Nat} (more : count < numBlocks) :
      Scanned d numBlocks numFrames frameBid contentBlk count frameBid
  | later {frameBid contentBlk count count' b : Nat} (more : count < numBlocks)
      (counted : countEntries (d.read frameBid) numBlocks (SFS_FRAME_COUNT - contentBlk) contentBlk count = .ok count')
      (goesOn : ¬ (nextFrame (d.read frameBid) = 0 ∧ count' < numFrames))
      (rest : Scanned d numBlocks numFrames (nextFrame (d.read frameBid)) 0 count' b) :
      Scanned d numBlocks numFrames frameBid contentBlk count b

/-- What `sfs_write` and `sfs_read` look up and then copy. The first frame is read in any case, and the walk to
the other ones counts blocks. -/
def TransferUses (cap : Nat) (s : State) (slot : Fin 32) (cur length : Nat) (b : Nat) : Kind → Prop
  | .inode => b = (s.fdtable slot).inodeBid
  | .frame => ∃ i, (i = 0 ∨ 127 * i < cur / 512 % 127 + numBlocks cur length) ∧
      b = (frameNext s.disk)^[i] (firstFrame (s.disk.read (s.fdtable slot).inodeBid))
  | .data => ∃ ids s', sfsGetFileContent cap s slot cur length = .ok (ids, s') ∧ b ∈ ids
  | _ => False

/-- What `sfs_remove` frees. -/
def FreeUses (d : Image) (inodeBid b : Nat) : Kind → Prop
  | .inode => b = inodeBid
  | .frame => Met (frameNext d) (firstFrame (d.read inodeBid)) b
  | .data => ∃ f, Met (frameNext d) (firstFrame (d.read inodeBid)) f ∧ ∃ j < SFS_FRAME_COUNT, content (d.read f) j = b ∧ b ≠ 0
  | _ => False

/-- What `sfs_open` builds for a new file. -/
def CreateUses (s : State) (dirBid : Nat) (freeInode : Int) (inode : Block) (name : CString) (b : Nat) (k : Kind) : Prop :=
  ∃ i v s', createFile s dirBid (s.disk.read dirBid) freeInode inode name = .ok (i, v, s') ∧
    match k with
    | .inode => b = i
    | .frame => b = firstFrame v
    | .data => b = content (s'.disk.read (firstFrame v)) 0
    | _ => False

/-- The call takes `b` for a block of kind `k` when it is made in state `s`. -/
def Call.Uses (s : State) (k : Kind) (b : Nat) : Call → Prop
  | mkfs => False
  | printInfo => False
  | mkdir _ dirname => k = .dir ∧ (Met (dirNext s.disk) (firstDir s.sb) b ∨ sfsFindDir s dirname = .ok 0 ∧
      ∃ newBid s', sfsAllocBlock s = .ok (newBid, s') ∧ (b = newBid ∨ Met (dirNext s'.disk) (firstDir s.sb) b))
  | rmdir _ => k = .dir ∧ Met (dirNext s.disk) (firstDir s.sb) b
  | lsdir => k = .dir ∧ Met (dirNext s.disk) (firstDir (s.disk.read 0)) b
  | ls => k = .dir ∧ Met (dirNext s.disk) (firstDir (s.disk.read 0)) b ∨ k = .inode ∧
      ∃ dirBid, Met (dirNext s.disk) (firstDir (s.disk.read 0)) dirBid ∧
        ∃ j < SFS_DB_NINODES, inodes (s.disk.read dirBid) j = b ∧ b ≠ 0
  | openFile inode dirname name => findFd s ≠ none ∧ (k = .dir ∧ Met (dirNext s.disk) (firstDir s.sb) b ∨
      ∃ dirBid, sfsFindDir s dirname = .ok dirBid ∧ (k = .dir ∧ b = dirBid ∨
        k = .inode ∧ (∃ j < SFS_DB_NINODES, inodes (s.disk.read dirBid) j = b ∧ b ≠ 0) ∨
        ∃ freeInode inode', scanSlots s.disk (s.disk.read dirBid) name SFS_DB_NINODES 0 (-1) inode =
          .ok (.absent freeInode inode') ∧ CreateUses s dirBid freeInode inode' name b k))
  | close _ => False
  | remove fd => ∃ slot, fdIndex fd = .ok slot ∧ (k = .dir ∧ b = (s.fdtable slot).dirBid ∨
      ∃ inodeBid s', unlinkInode s fd = .ok (inodeBid, s') ∧ FreeUses s'.disk inodeBid b k)
  | write cap fd _ length => ∃ slot, fdIndex fd = .ok slot ∧ (k = .inode ∧ b = (s.fdtable slot).inodeBid ∨
      GrowUses (missingFrames s (s.fdtable slot) length) (firstFrame (s.disk.read (s.fdtable slot).inodeBid)) s k b ∨
        ∃ s', resizeStage s slot length = .ok s' ∧
          TransferUses (cap.getD (numBids length).toNat) s' slot (s.fdtable slot).cur (toU32 length) b k)
  | read fd _ length => ∃ slot, fdIndex fd = .ok slot ∧
      (k = .frame ∧ Scanned s.disk (numBids length).toNat
          (((s.fdtable slot).cur / 65024 : Nat) - (toU32 ((s.fdtable slot).cur + length) / 65024 : Nat) + 1)
          (firstFrame (s.disk.read (s.fdtable slot).inodeBid)) ((s.fdtable slot).cur / 512) 0 b ∨
        TransferUses (numBids length).toNat s slot (s.fdtable slot).cur (toU32 length) b k)
  | seek fd _ loc => loc = 2 ∧ k = .inode ∧ ∃ slot, fdIndex fd = .ok slot ∧ b = (s.fdtable slot).inodeBid
  | eof fd => k = .inode ∧ ∃ slot, fdIndex fd = .ok slot ∧ b = (s.fdtable slot).inodeBid

/-- The descriptor whose inode is read for its size is live. -/
def Call.Opened (w : World) : Call → Prop
  | seek fd _ loc => loc = 2 → ∃ slot, w.Live fd slot
  | eof fd => ∃ slot, w.Live fd slot
  | _ => True

/-! ### Where they start -/

variable {own : Owners} {s s' : State} {d : Image} {inodeBid cap length cur b n : Nat} {k : Kind} {slot : Fin 32} {fs : List Nat}

theorem Sound.two_le {d : Image} (sound : Sound own d) {b : Nat} {k : Kind} (role : Owners.role own b = some k)
    (other : k ≠ .super) : 2 ≤ b := by
  have := sound.role_ne_zero role other
  have := sound.role_ne_one role
  omega

theorem Sound.met_frame (sound : Sound own d) (role : Owners.role own inodeBid = some .inode)
    (met : Met (frameNext d) (firstFrame (d.read inodeBid)) b) : Owners.role own b = some .frame := by
  obtain ⟨fs, chain, -, roles⟩ := sound.frameChain role
  exact roles b (met.mem chain)

theorem FreeUses.two_le (sound : Sound own d) (role : Owners.role own inodeBid = some .inode) (use : FreeUses d inodeBid b k) :
    2 ≤ b := by
  cases k with
  | inode =>
    obtain rfl := use
    exact sound.two_le role (by decide)
  | frame => exact sound.two_le (sound.met_frame role use) (by decide)
  | data =>
    obtain ⟨f, met, j, hj, rfl, some⟩ := use
    have owned := sound.content_owned (sound.met_frame role met) hj some
    exact sound.two_le (k := .data) (role_of_own owned) (by decide)
  | super => exact use.elim
  | dir => exact use.elim

theorem GrowUses.two_le {missing frameBid : Nat} (use : GrowUses missing frameBid s k b) (sound : Sound own s.disk)
    (loaded : nfreemapBlocks s.sb ≠ 0) (role : Owners.role own frameBid = some .frame)
    (free : 128 * missing ≤ (s.disk.read 1).clearCount) : 2 ≤ b := by
  induction use generalizing own with
  | link => exact sound.two_le role (by decide)
  | @new missing frameBid newFrameBid s s' grown =>
    obtain ⟨g, own', s'', run, linked, -⟩ := growFrame_ok sound loaded role (by omega)
    obtain ⟨rfl, rfl⟩ := Prod.mk.inj (Except.ok.inj (grown.symm.trans run))
    exact linked.sound.two_le (linked.roles _ (List.mem_singleton_self _)) (by decide)
  | @fill missing frameBid newFrameBid j s s' grown hj =>
    obtain ⟨g, own', s'', run, linked, -⟩ := growFrame_ok sound loaded role (by omega)
    obtain ⟨rfl, rfl⟩ := Prod.mk.inj (Except.ok.inj (grown.symm.trans run))
    have member := List.mem_singleton_self newFrameBid
    have owned := linked.sound.content_owned (linked.roles _ member) hj (linked.full _ member _ hj).1
    exact linked.sound.two_le (k := .data) (role_of_own owned) (by decide)
  | @later missing frameBid newFrameBid s s' k b grown _ ih =>
    obtain ⟨g, own', s'', run, linked, count⟩ := growFrame_ok sound loaded role (by omega)
    obtain ⟨rfl, rfl⟩ := Prod.mk.inj (Except.ok.inj (grown.symm.trans run))
    exact ih linked.sound (by rw [linked.grows.sb]; exact loaded) (linked.roles _ (List.mem_singleton_self _)) (by omega)

/-- As long as there are entries to count, the scan is in a frame of the file. -/
theorem Scanned.mem {numBlocks frameBid contentBlk count : Nat} {numFrames : Int}
    (scanned : Scanned d numBlocks numFrames frameBid contentBlk count b) (chain : Chain (frameNext d) frameBid fs)
    (start : contentBlk ≤ 127) (inside : contentBlk + (numBlocks - count) ≤ 127 * fs.length)
    (named : ∀ p, contentBlk ≤ p → p < contentBlk + (numBlocks - count) → entryAt d fs p ≠ 0) : b ∈ fs := by
  induction scanned generalizing fs with
  | here more =>
    cases fs with
    | nil =>
      simp only [List.length_nil] at inside
      omega
    | cons f fs => exact chain.1 ▸ List.mem_cons_self ..
  | @later frameBid contentBlk count count' b more counted goesOn rest ih =>
    cases fs with
    | nil =>
      simp only [List.length_nil] at inside
      omega
    | cons f fs =>
      obtain ⟨rfl, -, behind⟩ := chain
      have found := @countEntries_ok (d.read f) numBlocks (SFS_FRAME_COUNT - contentBlk) contentBlk count (by omega)
        fun j low high => by
          have entry := named j low (by omega)
          rwa [entryAt_head (by unfold SFS_FRAME_COUNT at high; omega)] at entry
      obtain rfl := Except.ok.inj (counted.symm.trans found)
      unfold SFS_FRAME_COUNT at ih
      simp only [List.length_cons] at inside
      refine List.mem_cons_of_mem _ (ih behind (Nat.zero_le _) (by omega) fun p _ high => ?_)
      have entry := named (127 + p) (by omega) (by omega)
      rwa [entryAt_tail] at entry

theorem Scanned.late {numBlocks frameBid contentBlk count : Nat} {numFrames : Int}
    (scanned : Scanned d numBlocks numFrames frameBid contentBlk count b) (late : 127 ≤ contentBlk) :
    Scanned d numBlocks numFrames frameBid (min contentBlk 127) count b := by
  cases scanned with
  | here more => exact .here more
  | later more counted goesOn rest =>
    have none : SFS_FRAME_COUNT - contentBlk = 0 := by unfold SFS_FRAME_COUNT; omega
    rw [none] at counted
    refine .later more ?_ goesOn rest
    rw [show SFS_FRAME_COUNT - min contentBlk 127 = 0 by unfold SFS_FRAME_COUNT; omega]
    exact counted

/-- The scan of a read that stays inside its objects comes to frames of the file only. -/
theorem ReadRoom.scanned {entry : Fd} {buf : List UInt8} {length : Int} (room : ReadRoom s entry buf length fs)
    (scanned : Scanned s.disk (numBids length).toNat
      ((entry.cur / 65024 : Nat) - (toU32 (entry.cur + length) / 65024 : Nat) + 1)
      (firstFrame (s.disk.read entry.inodeBid)) (entry.cur / 512) 0 b) : b ∈ fs := by
  rcases room.counts with ⟨inside, named, -⟩ | ⟨beyond, last, frame, -⟩
  · by_cases late : 127 ≤ entry.cur / 512
    · exact (scanned.late late).mem room.chain (Nat.min_le_right _ _) inside named
    · rw [Nat.min_eq_left (by omega)] at inside named
      exact scanned.mem room.chain (by omega) inside named
  · obtain ⟨f, rfl⟩ := List.length_eq_one_iff.mp last
    obtain ⟨same, -, ends⟩ := room.chain
    rw [← same] at scanned
    cases scanned with
    | here more => exact List.mem_singleton_self _
    | later more counted goesOn rest =>
      -- No entry is counted, so the scan breaks off.
      rw [show SFS_FRAME_COUNT - entry.cur / 512 = 0 by unfold SFS_FRAME_COUNT; omega] at counted
      obtain rfl := Except.ok.inj counted
      exact absurd ⟨ends, by omega⟩ goesOn

theorem TransferUses.two_le (use : TransferUses cap s slot cur length b k) (sound : Sound own s.disk)
    (loaded : nfreemapBlocks s.sb ≠ 0) (role : Owners.role own (s.fdtable slot).inodeBid = some .inode)
    (chain : FrameChain s.disk (s.fdtable slot).inodeBid fs) (framed : fs ≠ [])
    (inside : numBlocks cur length = 0 ∨ cur / 512 % 127 + numBlocks cur length ≤ 127 * fs.length)
    (free : holesAt s.disk fs (cur / 512 % 127) (numBlocks cur length) ≤ (s.disk.read 1).clearCount)
    (room : numBlocks cur length ≤ cap) : 2 ≤ b := by
  have roles : ∀ f ∈ fs, Owners.role own f = some .frame := fun f m => (chain.mem sound role f m).1
  cases k with
  | inode =>
    obtain rfl := use
    exact sound.two_le role (by decide)
  | frame =>
    obtain ⟨i, visited, rfl⟩ := use
    have some := List.length_pos_of_ne_nil framed
    exact sound.two_le (roles _ (chain.iterate_mem (by omega))) (by decide)
  | data =>
    obtain ⟨ids, s', run, member⟩ := use
    obtain ⟨own', s'', run', attached, named, -⟩ := sfsGetFileContent_ok cap slot cur length sound loaded rfl role chain
      inside free room
    obtain ⟨rfl, rfl⟩ := Prod.mk.inj (Except.ok.inj (run.symm.trans run'))
    obtain ⟨p, range, rfl⟩ := List.mem_map.mp member
    obtain ⟨low, high⟩ := List.mem_range'_1.mp range
    obtain ⟨f, -, owned⟩ := entryAt_owned attached.sound (fun f m => attached.grows.role (roles f m))
      (show p < 127 * fs.length by omega) (named p low high)
    exact attached.sound.two_le (k := .data) (role_of_own owned) (by decide)
  | super => exact use.elim
  | dir => exact use.elim

/-! ### Where the walks start -/

theorem Healthy.met_dir (h : Healthy own s) (met : Met (dirNext s.disk) (firstDir (s.disk.read 0)) b) :
    Owners.role own b = some .dir := by
  obtain ⟨ids, walk, roles⟩ := h.walkable
  exact roles b (met.mem walk.chain)

theorem Healthy.dir_two_le (h : Healthy own s) (met : Met (dirNext s.disk) (firstDir s.sb) b) : 2 ≤ b := by
  rw [h.coherent.sb] at met
  exact h.sound.two_le (h.met_dir met) (by decide)

theorem Healthy.clear_two_le (h : Healthy own s) (clear : (s.disk.read 1).bit b = false) : 2 ≤ b := by
  have := h.sound.clear_ne_zero clear
  have := h.sound.clear_ne_one clear
  omega

theorem CreateUses.two_le {dirBid : Nat} {freeInode : Int} {inode : Block} {name : CString}
    (use : CreateUses s dirBid freeInode inode name b k) (h : Healthy own s) (used : own dirBid ≠ none) : 2 ≤ b := by
  obtain ⟨i, v, s', run, part⟩ := use
  obtain ⟨f, c, new⟩ := createFile_inv h used run
  have two_le : ∀ b ∈ [i, f, c], 2 ≤ b := fun b m => h.clear_two_le (new.clear b m).2
  cases k with
  | inode =>
    obtain rfl := part
    exact two_le b (by simp)
  | frame =>
    obtain rfl : b = firstFrame v := part
    exact two_le _ (by simp [new.first])
  | data =>
    obtain rfl : b = content (s'.disk.read (firstFrame v)) 0 := part
    have small := (new.clear c (by simp)).1
    rw [new.first, new.frame, content_setContent (by decide) (by omega), if_pos rfl]
    exact two_le c (by simp)
  | super => exact part.elim
  | dir => exact part.elim

/-! ### The calls -/

variable {w : World} {fd length : Int} {buf : List UInt8}

theorem Serves.write_two_le (serves : Serves own w) (live : w.Live fd slot)
    (fine : WriteFine cap w.state (w.state.fdtable slot) buf length)
    (use : k = .inode ∧ b = (w.state.fdtable slot).inodeBid ∨
      GrowUses (missingFrames w.state (w.state.fdtable slot) length)
        (firstFrame (w.state.disk.read (w.state.fdtable slot).inodeBid)) w.state k b ∨
      ∃ s', resizeStage w.state slot length = .ok s' ∧
        TransferUses cap s' slot (w.state.fdtable slot).cur (toU32 length) b k) : 2 ≤ b := by
  obtain ⟨-, fs, room⟩ := fine
  have role := (serves.live slot live.2).role
  have framed := (serves.healthy.usable role).framed
  have loaded := serves.healthy.coherent.loaded
  have sound := serves.healthy.sound
  have free := room.free
  unfold blocksNeeded at free
  dsimp only at free
  rcases use with ⟨-, rfl⟩ | grow | ⟨s', run, transfer⟩
  · exact sound.two_le role (by decide)
  · exact grow.two_le sound loaded (role_of_own (sound.firstFrame_owned role framed)) (by omega)
  · obtain ⟨own₁, s₁, fs₁, run₁, resized, fds, -⟩ := resizeStage_ok length rfl sound loaded role framed room.chain (by omega)
    obtain rfl := Except.ok.inj (run.symm.trans run₁)
    have inside := room.inside
    rw [← resized.length_eq] at inside
    have hole := resized.holes _ _ (Nat.mod_lt _ (by decide)) inside
    have count := resized.count
    have same : (s'.fdtable slot).inodeBid = (w.state.fdtable slot).inodeBid := (fds.files slot).1
    have first : fs₁ ≠ [] := by
      rw [Ne, resized.chain.eq_nil_iff, resized.file.first]
      exact framed
    refine transfer.two_le resized.file.sound (by rw [show s'.sb = w.state.sb from resized.file.grows.sb]; exact loaded)
      (by rw [same]; exact resized.file.grows.role role) (by rw [same]; exact resized.chain) first inside ?_ room.ids
    omega

theorem Serves.read_two_le (serves : Serves own w) (live : w.Live fd slot)
    (room : ReadRoom w.state (w.state.fdtable slot) buf length fs)
    (use : k = .frame ∧ Scanned w.state.disk (numBids length).toNat (((w.state.fdtable slot).cur / 65024 : Nat) -
          (toU32 ((w.state.fdtable slot).cur + length) / 65024 : Nat) + 1)
        (firstFrame (w.state.disk.read (w.state.fdtable slot).inodeBid)) ((w.state.fdtable slot).cur / 512) 0 b ∨
      TransferUses (numBids length).toNat w.state slot (w.state.fdtable slot).cur (toU32 length) b k) : 2 ≤ b := by
  have role := (serves.live slot live.2).role
  have framed := (serves.healthy.usable role).framed
  have sound := serves.healthy.sound
  have first : fs ≠ [] := by
    rw [Ne, room.chain.eq_nil_iff]
    exact framed
  rcases use with ⟨rfl, scanned⟩ | transfer
  · exact sound.two_le (room.chain.mem sound role b (room.scanned scanned)).1 (by decide)
  · exact transfer.two_le sound serves.healthy.coherent.loaded role room.chain first room.inside room.free room.ids

/-- A fine call through live descriptors uses no block below 2. -/
theorem Serves.two_le {c : Call} (serves : Serves own w) (fine : c.Fine w) (opened : c.Opened w)
    (use : c.Uses w.state k b) : 2 ≤ b := by
  have healthy := serves.healthy
  have sound := healthy.sound
  cases c with
  | mkfs => exact use.elim
  | printInfo => exact use.elim
  | mkdir temp dirname =>
    obtain ⟨-, met | ⟨-, newBid, s', run, new⟩⟩ := use
    · exact healthy.dir_two_le met
    · obtain ⟨rfl, small, clear, -⟩ := sfsAllocBlock_inv healthy.coherent.loaded run
      rcases new with rfl | met
      · exact healthy.clear_two_le clear
      · obtain ⟨ids, walk, roles⟩ := healthy.walkable
        obtain ⟨walk', -⟩ := take_walkable walk small clear
        rw [show firstDir w.state.sb = firstDir ((w.state.take newBid).disk.read 0) by rw [← walk'.coherent.sb]; rfl] at met
        exact sound.two_le (roles b (met.mem walk'.chain)) (by decide)
  | rmdir dirname => exact healthy.dir_two_le use.2
  | lsdir => exact sound.two_le (healthy.met_dir use.2) (by decide)
  | ls =>
    obtain ⟨-, met⟩ | ⟨-, dirBid, met, j, hj, rfl, used⟩ := use
    · exact sound.two_le (healthy.met_dir met) (by decide)
    · exact sound.two_le (healthy.slot_role (healthy.met_dir met) hj used).2 (by decide)
  | openFile inode dirname name =>
    obtain ⟨dirBid, found, present, -⟩ := fine
    have role := (healthy.findDir found present).1
    obtain ⟨-, ⟨-, met⟩ | ⟨dirBid', found', part⟩⟩ := use
    · exact healthy.dir_two_le met
    · obtain rfl := Except.ok.inj (found.symm.trans found')
      obtain ⟨-, rfl⟩ | ⟨-, j, hj, rfl, used⟩ | ⟨freeInode, inode', -, create⟩ := part
      · exact sound.two_le role (by decide)
      · exact sound.two_le (healthy.slot_role role hj used).2 (by decide)
      · exact create.two_le healthy (owned_of_role role)
  | close fd => exact use.elim
  | remove fd =>
    obtain ⟨slot, live, small⟩ := fine
    have liveFd := serves.live slot live.2
    obtain ⟨slot', index, part⟩ := use
    obtain rfl := Except.ok.inj (live.1.symm.trans index)
    obtain ⟨-, rfl⟩ | ⟨inodeBid, s', run, free⟩ := part
    · exact liveFd.range.1
    · rw [unlinkInode, index, ok_bind] at run
      obtain ⟨dir, stored, run⟩ := bind_ok run
      obtain ⟨rfl, rfl⟩ := Prod.mk.inj (Except.ok.inj run)
      obtain rfl : withoutSlot _ _ = dir := Except.ok.inj ((if_pos (by unfold SFS_DB_NINODES at small; omega)).symm.trans stored)
      have range := liveFd.range
      have sound₁ := sound.erase range.2 (by omega) (withoutSlot_word (w.state.disk.read (w.state.fdtable slot).dirBid) small)
      exact free.two_le sound₁ liveFd.role
  | write cap fd buf length =>
    obtain ⟨slot', index, part⟩ := use
    cases cap with
    | none =>
      obtain ⟨slot, live, array, fine⟩ := fine
      obtain rfl := Except.ok.inj (live.1.symm.trans index)
      exact serves.write_two_le live fine part
    | some cap =>
      obtain ⟨slot, live, fine⟩ := fine
      obtain rfl := Except.ok.inj (live.1.symm.trans index)
      exact serves.write_two_le live fine part
  | read fd buf length =>
    obtain ⟨slot, live, fs, room⟩ := fine
    obtain ⟨slot', index, part⟩ := use
    obtain rfl := Except.ok.inj (live.1.symm.trans index)
    exact serves.read_two_le live room part
  | seek fd relative loc =>
    obtain ⟨fromEnd, -, slot, index, rfl⟩ := use
    obtain ⟨slot', live⟩ := opened fromEnd
    obtain rfl := Except.ok.inj (live.1.symm.trans index)
    exact sound.two_le (serves.live _ live.2).role (by decide)
  | eof fd =>
    obtain ⟨-, slot, index, rfl⟩ := use
    obtain ⟨slot', live⟩ := opened
    obtain rfl := Except.ok.inj (live.1.symm.trans index)
    exact sound.two_le (serves.live _ live.2).role (by decide)

end StorageStack.Sfs
