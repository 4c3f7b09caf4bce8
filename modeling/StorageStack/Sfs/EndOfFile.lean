import StorageStack.Sfs.ReadStops

/-!
# Reading to the end of a file

`sfs_eof` compares the cursor with the size by `>`, so behind the last byte it still says that there is more. A
loop that reads single bytes until then reads one too many, whatever the file holds.
-/

namespace StorageStack.Sfs
open Lib CString

variable {own : Owners} {s s' : State} {d : Image} {slot : Fin 32} {fd : Int} {buf buf' bytes : List UInt8} {b : UInt8}
  {inode n f : Nat}

/-- `while (!sfs_eof(fd)) sfs_read(fd, buf, 1)`, with what each read returns and leaves in the buffer. -/
def readToEof : (fuel : Nat) → State → (fd : Int) → (buf : List UInt8) → Outcome (List (Int × List UInt8) × State)
  | 0, _, _, _ => .error .spins
  | fuel + 1, s, fd, buf => do
    let (eof, s) ← sfsEof s fd
    if eof ≠ 0 then .ok ([], s)
    else do
      let (r, buf, s) ← sfsRead s fd buf 1
      let (reads, s) ← readToEof fuel s fd buf
      .ok ((r, buf) :: reads, s)

/-- The loop ends, and each byte from the cursor on was read by a call that returned 1. -/
def ReadsToEnd (s : State) (fd : Int) (slot : Fin 32) (bytes : List UInt8) (b : UInt8) : Prop :=
  ∃ fuel s', readToEof fuel s fd [b] = .ok ((bytes.drop (s.fdtable slot).cur).map fun x => (1, [x]), s')

/-! ### One byte -/

theorem readLoop_done (ids : List Nat) (offset cur : Nat) : readLoop d ids 0 offset cur buf = .ok (cur, buf) := by
  cases ids with
  | nil => rfl
  | cons id ids => rfl

theorem readLoop_one {ids : List Nat} {remaining offset cur : Nat} {r : Nat × List UInt8} (inBlock : offset < 512)
    (some : remaining ≠ 0) (whole : offset + remaining ≤ 512) (small : cur + 1 < 4294967296) (length : buf.length = 1)
    (run : readLoop d ids remaining offset cur buf = .ok r) : r.1 = cur + 1 ∧ r.2.length = 1 := by
  obtain ⟨remaining, rfl⟩ := Nat.exists_eq_succ_of_ne_zero some
  cases ids with
  | nil => cases run
  | cons id ids =>
    have shape := @toCopy_cases offset (remaining + 1) inBlock
    have moved := (readLoop_moves inBlock (Nat.le_refl _) run).1
    rw [readLoop] at run
    obtain ⟨bytes, copied, run⟩ := bind_ok run
    obtain ⟨buf', stored, run⟩ := bind_ok run
    have size := length_strncpy copied
    unfold blit at stored
    split at stored
    case isFalse => cases stored
    case isTrue fits =>
      obtain rfl : remaining = 0 := by omega
      obtain rfl := Except.ok.inj stored
      rw [show 0 + 1 - toCopy offset (0 + 1) = 0 by omega, readLoop_done] at run
      obtain rfl := Except.ok.inj run
      exact ⟨by rw [moved, if_neg some]; omega, (length_overlay fits).trans length⟩

theorem frameLoop_once {cap count : Nat} {r : List Nat × State} (sound : Sound own s.disk) (loaded : nfreemapBlocks s.sb ≠ 0)
    (role : Owners.role own f = some .frame) (inFrame : count < 127) (run : frameLoop cap 2 1 count f [] s = .ok r) :
    ∃ own', Attached [f] own s own' r.2 := by
  have room := frameLoop_room run (Nat.zero_le _)
  rw [frameLoop, if_neg (by decide)] at run
  obtain ⟨fill, filled, run⟩ := bind_ok run
  have free : holes (s.disk.read f) count (visit 1 count) ≤ (s.disk.read 1).clearCount := by
    by_contra short
    rw [contentLoop_short sound loaded (sound.frameOk role) (by omega)] at filled
    cases filled
  obtain ⟨own', s₁, frame, run₁, attached, -⟩ := @frameRound_ok own s cap 1 count f [] sound loaded role free room
  obtain rfl := Except.ok.inj (run₁.symm.trans filled)
  have last : 1 - visit 1 count = 0 := by
    unfold visit SFS_FRAME_COUNT
    omega
  dsimp only at run
  rw [last] at run
  obtain rfl := Except.ok.inj run
  exact ⟨own', attached⟩

/-- The descriptor is that of a file of `n` bytes. -/
structure Reading (own : Owners) (s : State) (slot : Fin 32) (inode n : Nat) : Prop where
  sound : Sound own s.disk
  loaded : nfreemapBlocks s.sb ≠ 0
  role : Owners.role own inode = some .inode
  framed : firstFrame (s.disk.read inode) ≠ 0
  entry : (s.fdtable slot).inodeBid = inode
  ends : size (s.disk.read inode) = n

/-- A read of one byte that returns moves the cursor by one, and the file stays as large as it is. -/
theorem Reading.read {r : Int} (reading : Reading own s slot inode n) (index : fdIndex fd = .ok slot)
    (cursor : (s.fdtable slot).cur < 4294967296) (length : buf.length = 1) (run : sfsRead s fd buf 1 = .ok (r, buf', s')) :
    (∃ own', Reading own' s' slot inode n) ∧ (s'.fdtable slot).cur = (s.fdtable slot).cur + 1 ∧
      (s'.fdtable slot).cur < 4294967296 ∧ buf'.length = 1 := by
  obtain ⟨sound, loaded, role, framed, here, ends⟩ := reading
  obtain ⟨count, ids, s₁, cur, parts⟩ := @sfsRead_inv s s' slot fd buf buf' 1 r index cursor (by decide) run
  have array := parts.array
  have position := parts.position
  have first : Owners.role own (firstFrameOf s slot) = some .frame := by
    rw [firstFrameOf, here]
    exact role_of_own (sound.firstFrame_owned role framed)
  have collect := parts.collect
  rw [show ((s.fdtable slot).cur + 1) / 512 - (s.fdtable slot).cur / 512 + 1 = 1 by omega] at collect
  obtain ⟨own', attached⟩ := frameLoop_once sound loaded first (Nat.mod_lt _ (by decide)) collect
  have kept : s₁.disk.read inode = s.disk.read inode := by
    refine attached.grows.kept (owned_of_role role) fun same => ?_
    obtain rfl := List.mem_singleton.mp same
    rw [first] at role
    cases role
  have moved := readLoop_one (Nat.mod_lt _ (by decide)) (by split <;> omega) (by split <;> omega) (by omega) length parts.copy
  rw [parts.state]
  have after : ((s₁.setFd slot { s₁.fdtable slot with cur := cur }).fdtable slot).cur = (s.fdtable slot).cur + 1 := by
    rw [setFd_self]
    exact moved.1
  refine ⟨⟨own', attached.sound, ?_, attached.grows.role role, ?_, ?_, ?_⟩, after, after ▸ position, moved.2⟩
  · rw [setFd_sb, attached.grows.sb]
    exact loaded
  · rw [setFd_disk, kept]
    exact framed
  · rw [setFd_self, attached.grows.fdtable]
    exact here
  · rw [setFd_disk, kept]
    exact ends

/-! ### The loop -/

theorem Reading.eof (reading : Reading own s slot inode n) (index : fdIndex fd = .ok slot) :
    sfsEof s fd = .ok (if (s.fdtable slot).cur > n then 1 else 0, s) := by
  rw [sfsEof, index, ok_bind, reading.entry, reading.ends]

/-- The loop is left with the cursor behind the end. -/
theorem readToEof_late {fuel : Nat} {reads : List (Int × List UInt8)} (reading : Reading own s slot inode n)
    (index : fdIndex fd = .ok slot) (cursor : (s.fdtable slot).cur < 4294967296) (length : buf.length = 1)
    (run : readToEof fuel s fd buf = .ok (reads, s')) : n < (s.fdtable slot).cur + reads.length := by
  induction fuel generalizing own s buf reads with
  | zero => cases run
  | succ fuel ih =>
    rw [readToEof, reading.eof index, ok_bind] at run
    dsimp only at run
    by_cases beyond : (s.fdtable slot).cur > n
    · omega
    · rw [if_neg beyond, if_neg (by decide)] at run
      obtain ⟨⟨r, buf', s₁⟩, read, run⟩ := bind_ok run
      obtain ⟨⟨reads', s₂⟩, rest, run⟩ := bind_ok run
      obtain ⟨rfl, rfl⟩ := Prod.mk.inj (Except.ok.inj run)
      obtain ⟨⟨own', reading'⟩, moved, cursor', length'⟩ := reading.read index cursor length read
      have later := ih reading' cursor' length' rest
      rw [moved] at later
      show n < (s.fdtable slot).cur + (reads'.length + 1)
      omega

theorem Reading.not_to_end (reading : Reading own s slot inode n) (index : fdIndex fd = .ok slot) (length : bytes.length = n)
    (cursor : (s.fdtable slot).cur ≤ n) : ¬ ReadsToEnd s fd slot bytes b := by
  intro ⟨fuel, s', run⟩
  have small := (s.disk.read inode).word_lt 0
  have ends := reading.ends
  unfold size at ends
  have late := readToEof_late reading index (by omega) (List.length_singleton (a := b)) run
  rw [List.length_map, List.length_drop] at late
  omega

theorem Reading.of_file (wf : WellFormed s.disk) (loaded : nfreemapBlocks s.sb = 1)
    (file : IsFile s.disk (s.fdtable slot).inodeBid) :
    ∃ own, Reading own s slot (s.fdtable slot).inodeBid (size (s.disk.read (s.fdtable slot).inodeBid)) :=
  ⟨_, wf.sound, by rw [loaded]; decide, file.role wf.sound, file.framed wf, rfl, rfl⟩

/-- No loop over a file of a well-formed image reads to its end. -/
theorem never_reads_to_end (wf : WellFormed s.disk) (loaded : nfreemapBlocks s.sb = 1) (index : fdIndex fd = .ok slot)
    (file : IsFile s.disk (s.fdtable slot).inodeBid) (holds : FileHolds s.disk (s.fdtable slot).inodeBid bytes)
    (cursor : (s.fdtable slot).cur ≤ bytes.length) : ¬ ReadsToEnd s fd slot bytes b := by
  obtain ⟨own, reading⟩ := Reading.of_file wf loaded file
  obtain ⟨fs, -, -, rfl⟩ := holds
  rw [List.length_map, List.length_range] at cursor
  exact reading.not_to_end index (by rw [List.length_map, List.length_range]) cursor

theorem one_byte_not_to_end : ∃ w, runAll Call.step oneWritten (World.start .initial) = .ok w ∧
    ¬ ReadsToEnd w.state 0 0 [97] 0 := by
  obtain ⟨own, w, dirBid, run, one, healthy, file, holds⟩ := oneWritten_file
  exact ⟨w, run, @never_reads_to_end w.state 0 0 [97] 0 healthy.wellFormed healthy.coherent.nfreemapBlocks (fdIndex_val 0) file
    holds (by rw [one.cursor]; exact Nat.zero_le _)⟩

theorem oneListed_holds : ∃ own w, runAll Call.step oneListed (World.formatted .initial) = .ok w ∧ Healthy own w.state ∧
    IsFile w.state.disk (w.state.fdtable 0).inodeBid ∧ FileHolds w.state.disk (w.state.fdtable 0).inodeBid [] ∧
    (w.state.fdtable 0).cur = 0 := by
  obtain ⟨own, w, run, healthy, file, cursor, empty, -⟩ := oneListed_file
  obtain ⟨fs, chain, -⟩ := healthy.sound.frameChain (file.role healthy.sound)
  exact ⟨own, w, run, healthy, file, ⟨fs, chain, by rw [empty]; exact Nat.zero_le _, by rw [empty]; rfl⟩, cursor⟩

/-- The empty file: a byte is read. -/
theorem empty_file_reads_on : ¬ ∀ (s : State) (fd : Int) (slot : Fin 32) (bytes : List UInt8) (b : UInt8), WellFormed s.disk →
    nfreemapBlocks s.sb = 1 → fdIndex fd = .ok slot → IsFile s.disk (s.fdtable slot).inodeBid →
    FileHolds s.disk (s.fdtable slot).inodeBid bytes → (s.fdtable slot).cur ≤ bytes.length → ReadsToEnd s fd slot bytes b := by
  intro claim
  obtain ⟨own, w, -, healthy, file, holds, cursor⟩ := oneListed_holds
  obtain ⟨own', reading⟩ := Reading.of_file healthy.wellFormed healthy.coherent.nfreemapBlocks file
  have claimed := claim w.state 0 0 [] 0 healthy.wellFormed healthy.coherent.nfreemapBlocks (fdIndex_val 0) file holds
    (by rw [cursor]; exact Nat.le_refl _)
  obtain ⟨fs, -, -, empty⟩ := holds
  have size : Sfs.size (w.state.disk.read (w.state.fdtable 0).inodeBid) = 0 := by
    simpa using (congrArg List.length empty).symm
  rw [size] at reading
  exact reading.not_to_end (fdIndex_val 0) rfl (by rw [cursor]) claimed

end StorageStack.Sfs
