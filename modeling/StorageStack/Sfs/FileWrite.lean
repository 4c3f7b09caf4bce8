import StorageStack.Sfs.Contents

/-!
# Writing a file

A write goes through three stages: the file is resized, the blocks of the range are collected, and the
bytes are copied block by block. As long as each stage stays inside its objects (`WriteRoom`), only
blocks of the file are changed and every block that is attached was free.
-/

namespace StorageStack.Sfs
open Lib CString

variable {own own' : Owners} {s s' : State} {fs : List Nat}

/-- How many frames `sfs_write` appends before it writes. -/
def missingFrames (s : State) (entry : Fd) (length : Int) : Nat :=
  let inode := s.disk.read entry.inodeBid
  let newSize := toU32 (length + entry.cur)
  if newSize > size inode then (newFrames newSize - oldFrames (size inode)).toNat else 0

theorem missingFrames_small {entry : Fd} {n : Nat} (small : entry.cur + n ≤ 65024) : missingFrames s entry (n : Int) = 0 := by
  have total : toU32 ((n : Int) + entry.cur) = n + entry.cur := by
    unfold toU32
    omega
  unfold missingFrames
  dsimp only
  rw [total]
  split
  · rename_i larger
    have few : newFrames (n + entry.cur) ≤ 1 := by
      unfold newFrames toU32
      omega
    have some : 1 ≤ oldFrames (size (s.disk.read entry.inodeBid)) := by
      have room : size (s.disk.read entry.inodeBid) < 65024 := by omega
      generalize size (s.disk.read entry.inodeBid) = bytes at room
      have first : toInt32 bytes = bytes := by unfold toInt32; omega
      have sum : toInt32 ((bytes : Int) + 65023) = bytes + 65023 := by unfold toInt32; omega
      unfold oldFrames
      dsimp only
      rw [first, sum, Int.tdiv_eq_ediv_of_nonneg (by omega)]
      split <;> omega
    omega
  · rfl

/-- The number of frames the file has when the blocks of the range are collected. Growing starts behind
the first frame, whatever the file had there. -/
def framesAfter (missing : Nat) (fs : List Nat) : Nat := if missing = 0 then fs.length else missing + 1

/-- How many blocks a write allocates: the new frames with their entries, and the holes it fills. -/
def blocksNeeded (s : State) (entry : Fd) (length : Int) (fs : List Nat) : Nat :=
  let missing := missingFrames s entry length
  let first := entry.cur / 512 % 127
  let n := numBlocks entry.cur (toU32 length)
  128 * missing + if missing = 0 then holesAt s.disk fs first n else holes (s.disk.read (fs.getD 0 0)) first (visit n first)

theorem blocksNeeded_le (s : State) (entry : Fd) (length : Int) (fs : List Nat) :
    blocksNeeded s entry length fs ≤ 128 * missingFrames s entry length + numBlocks entry.cur (toU32 length) := by
  have all := holesAt_le s.disk fs (entry.cur / 512 % 127) (numBlocks entry.cur (toU32 length))
  have first := holes_le (s.disk.read (fs.getD 0 0)) (entry.cur / 512 % 127)
    (visit (numBlocks entry.cur (toU32 length)) (entry.cur / 512 % 127))
  unfold visit at first
  unfold blocksNeeded visit
  dsimp only
  split <;> omega

/-- A write that appends frames links them behind the first frame, which has to be the last one then. -/
def KeepsFrames (s : State) (entry : Fd) (length : Int) : Prop :=
  missingFrames s entry length = 0 ∨ nextFrame (s.disk.read (firstFrame (s.disk.read entry.inodeBid))) = 0

/-- The write stays inside the frames of the file, the free blocks, the array of ids and the positions. -/
structure WriteRoom (cap : Nat) (s : State) (entry : Fd) (length : Int) (fs : List Nat) : Prop where
  chain : FrameChain s.disk entry.inodeBid fs
  inside : numBlocks entry.cur (toU32 length) = 0 ∨
    entry.cur / 512 % 127 + numBlocks entry.cur (toU32 length) ≤ 127 * framesAfter (missingFrames s entry length) fs
  free : blocksNeeded s entry length fs ≤ (s.disk.read 1).clearCount
  ids : numBlocks entry.cur (toU32 length) ≤ cap
  position : entry.cur + length.toNat < 4294967296

/-- What a call that changes one file leaves, descriptors aside. -/
structure FileGrows (inode : Nat) (own : Owners) (s : State) (own' : Owners) (s' : State) : Prop where
  sound : Sound own' s'.disk
  grows : Grows (fun b => b = inode ∨ InFile own inode b) own own' s { s' with fdtable := s.fdtable }
  first : firstFrame (s'.disk.read inode) = firstFrame (s.disk.read inode)
  name : fileName (s'.disk.read inode) = fileName (s.disk.read inode)
  inodes : SameInodes own own'

/-- A descriptor keeps its file. -/
def SameFile (e e' : Fd) : Prop := e'.inodeBid = e.inodeBid ∧ e'.dirBid = e.dirBid ∧ e'.valid = e.valid

theorem Grows.setFdtable {touched : Nat → Prop} (h : Grows touched own own' s s') (t t' : Fin 32 → Fd) (same : t = t') :
    Grows touched own own' { s with fdtable := t } { s' with fdtable := t' } :=
  ⟨h.grow, h.bits, h.kept, h.sb, same.symm, h.flushed⟩

theorem FrameChain.first {inode : Nat} (chain : FrameChain s.disk inode fs) (framed : firstFrame (s.disk.read inode) ≠ 0) :
    ∃ rest, fs = firstFrame (s.disk.read inode) :: rest := by
  cases fs with
  | nil => exact absurd chain framed
  | cons f rest => exact ⟨rest, by rw [chain.1]⟩

/-! ### Resizing -/

/-- The frames after growing: the old ones, or the first one and the new ones. -/
theorem growFile_ok {inode missing : Nat} (sound : Sound own s.disk) (loaded : nfreemapBlocks s.sb ≠ 0)
    (role : Owners.role own inode = some .inode) (framed : firstFrame (s.disk.read inode) ≠ 0)
    (chain : FrameChain s.disk inode fs) (free : 128 * missing ≤ (s.disk.read 1).clearCount) :
    ∃ own' s' fs', growFrames missing (firstFrame (s.disk.read inode)) s = .ok s' ∧ Sound own' s'.disk ∧
      Grows (InFile own inode) own own' s s' ∧ Chain (frameNext s'.disk) (firstFrame (s.disk.read inode)) fs' ∧
      (∀ f ∈ fs', Owners.role own' f = some .frame ∧ (own f ≠ none → InFile own inode f) ∧
        (own f = none → ∀ j < SFS_FRAME_COUNT, own (content (s'.disk.read f) j) = none)) ∧
      fs'.length = framesAfter missing fs ∧ SameInodes own own' ∧ (missing = 0 → fs' = fs ∧ s' = s ∧ own' = own) ∧
      (∀ c n, c < 127 → missing ≠ 0 → c + n ≤ 127 * fs'.length →
        holesAt s'.disk fs' c n = holes (s.disk.read (fs.getD 0 0)) c (visit n c)) ∧
      (s'.disk.read 1).clearCount + 128 * missing = (s.disk.read 1).clearCount ∧
      (missing = 0 ∨ nextFrame (s.disk.read (firstFrame (s.disk.read inode))) = 0 →
        layout.Extends inode own (Loc.read s.disk) own' (Loc.read s'.disk)) ∧
      (∀ q < 65024 * fs'.length, byteAt s'.disk fs' q = if missing = 0 ∨ q < 65024 then byteAt s.disk fs q else 0) ∧
      (missing ≠ 0 → ∀ k, 127 ≤ k → k < 127 * fs'.length → entryAt s'.disk fs' k ≠ 0) := by
  obtain ⟨rest, shape⟩ := chain.first framed
  have members := chain.mem sound role
  obtain ⟨fRole, fFile⟩ := members (firstFrame (s.disk.read inode)) (by rw [shape]; exact List.mem_cons_self ..)
  by_cases none : missing = 0
  · subst none
    exact ⟨own, s, fs, rfl, sound, Grows.refl _ _ _, chain,
      fun f m => ⟨(members f m).1, fun _ => (members f m).2, fun free => absurd free (owned_of_role (members f m).1)⟩,
      rfl, fun _ inode => inode, fun _ => ⟨rfl, rfl, rfl⟩,
      fun _ _ _ some => absurd rfl some, Nat.add_zero _, fun _ => .refl .., fun q _ => (if_pos (.inl rfl)).symm,
      fun some => absurd rfl some⟩
  obtain ⟨own', s', news, run, size, linked, count⟩ := growFrames_ok sound loaded fRole free
  have some : news ≠ [] := by
    rintro rfl
    exact none size.symm
  refine ⟨own', s', firstFrame (s.disk.read inode) :: news, run, linked.sound, linked.grows.mono fun b same => ?_,
    linked.chain fun h => absurd h some, fun f m => ?_, by rw [framesAfter, if_neg none, List.length_cons, size],
    linked.inodes, fun h => absurd h none, fun c n hc _ inside => ?_, count, fun last => ?_, fun q hq => ?_,
    fun _ k low high => linked.entryAt_ne_zero low high⟩
  · subst same
    exact fFile
  · rcases List.mem_cons.mp m with rfl | m
    · exact ⟨linked.grows.role fRole, fun _ => fFile, fun free => absurd free (owned_of_role fRole)⟩
    · exact ⟨linked.roles f m, fun used => absurd (linked.unowned f m) used, fun _ j hj => (linked.full f m j hj).2⟩
  · have head : fs.getD 0 0 = firstFrame (s.disk.read inode) := by rw [shape]; rfl
    have full : holesAt s'.disk news 0 (n - visit n c) = 0 := by
      rw [holesAt, List.length_eq_zero_iff, List.filter_eq_nil_iff]
      intro p member
      have bound := (List.mem_range'_1.mp member).2
      simp only [List.length_cons] at inside
      have index : p / 127 < news.length := by unfold visit SFS_FRAME_COUNT at bound; omega
      have named := linked.full (news[p / 127]) (List.getElem_mem index) (p % 127) (Nat.mod_lt _ (by decide))
      rw [entryAt, List.getD_eq_getElem?_getD, List.getElem?_eq_getElem index, Option.getD_some]
      simpa using named.1
    rw [holesAt_cons hc, full, head, Nat.add_zero]
    exact holes_congr fun j _ _ => linked.entry j
  · have extends' := linked.ext (.inr (last.resolve_left none))
    exact extends'.under (extends'.anchored (.step (sound.firstFrame_owned role framed) (live_firstFrame role) rfl .root))
  · rw [shape, linked.byteAt rest sound fRole hq]
    simp only [none, false_or]

theorem extends_write {d : Image} {b root : Nat} {v : Block} (sound : Sound own d) (hb : b < 4096)
    (same : ∀ l, layout.Live own l → l.host = b → v.word l.field = l.read d) :
    layout.Extends root own (Loc.read d) own (Loc.read (d.write b v)) := by
  refine ⟨id, fun l holds => ?_, fun c free used => absurd free used⟩
  by_cases here : l.host = b
  · rw [← same l holds.1 here, Loc.read, here, Image.read_write]
  · have small := sound.lt (owned_of_live holds.1)
    rw [Loc.read, Loc.read, Image.read_write_of_ne _ _ (by omega)]

theorem FileGrows.setSize {inode n : Nat} (sound : Sound own' s'.disk) (role : Owners.role own inode = some .inode)
    (grows : Grows (InFile own inode) own own' s s') (inodes : SameInodes own own') :
    FileGrows inode own s own' { s' with disk := s'.disk.write inode (Sfs.setSize (s.disk.read inode) n) } := by
  have role' := grows.role role
  have same : s'.disk.read inode = s.disk.read inode := grows.kept (owned_of_role role) fun file => by
    rcases file.role with h | h
    · rw [h] at role; cases role
    · rw [h] at role; cases role
  have here : (s'.disk.write inode (Sfs.setSize (s.disk.read inode) n)).read inode = Sfs.setSize (s.disk.read inode) n :=
    Image.read_write _ _ _
  have writes := Grows.write sound (sound.role_lt role') (sound.role_ne_one role') (Sfs.setSize (s.disk.read inode) n)
  refine ⟨sound.write_inode role' fun named => ?_, ?_, ?_, ?_, inodes⟩
  · rw [firstFrame_setSize, ← same] at named ⊢
    exact sound.firstFrame_owned role' named
  · exact ((grows.mono fun b file => Or.inr file).trans writes fun b _ eq => Or.inl eq).setFdtable _ _ rfl
  · show firstFrame ((s'.disk.write inode _).read inode) = _
    rw [here, firstFrame_setSize]
  · show fileName ((s'.disk.write inode _).read inode) = _
    rw [here, fileName_setSize]

/-- The file of `entry` after the resize stage: its frames, and what is left to fill. -/
structure Resized (entry : Fd) (length : Int) (fs : List Nat) (own : Owners) (s : State) (fs' : List Nat) (own' : Owners)
    (s' : State) : Prop where
  file : FileGrows entry.inodeBid own s own' s'
  chain : FrameChain s'.disk entry.inodeBid fs'
  length_eq : fs'.length = framesAfter (missingFrames s entry length) fs
  known : ∀ f ∈ fs', own f ≠ none → InFile own entry.inodeBid f
  new : ∀ f ∈ fs', own f = none → ∀ j < SFS_FRAME_COUNT, own (content (s'.disk.read f) j) = none
  holes : ∀ c n, c < 127 → n = 0 ∨ c + n ≤ 127 * fs'.length → holesAt s'.disk fs' c n =
    if missingFrames s entry length = 0 then holesAt s.disk fs c n
    else Sfs.holes (s.disk.read (fs.getD 0 0)) c (visit n c)
  count : (s'.disk.read 1).clearCount + 128 * missingFrames s entry length = (s.disk.read 1).clearCount
  same : missingFrames s entry length = 0 → own' = own ∧ fs' = fs ∧
    ∀ b < 4096, b ≠ entry.inodeBid → s'.disk.read b = s.disk.read b
  ext : KeepsFrames s entry length → layout.Extends entry.inodeBid own (Loc.read s.disk) own' (Loc.read s'.disk)
  size : size (s'.disk.read entry.inodeBid) = max (size (s.disk.read entry.inodeBid)) (toU32 (length + entry.cur))
  bytes : ∀ q < 65024 * fs'.length, byteAt s'.disk fs' q =
    if missingFrames s entry length = 0 ∨ q < 65024 then byteAt s.disk fs q else 0
  full : missingFrames s entry length ≠ 0 → ∀ k, 127 ≤ k → k < 127 * fs'.length → entryAt s'.disk fs' k ≠ 0

/-- All descriptors keep their files, and all but `fd` keep everything. -/
structure OtherFds (fd : Fin 32) (s s' : State) : Prop where
  files : ∀ i, SameFile (s.fdtable i) (s'.fdtable i)
  others : ∀ i, i ≠ fd → s'.fdtable i = s.fdtable i

theorem resizeStage_ok {fd : Fin 32} {entry : Fd} (length : Int) (here : s.fdtable fd = entry) (sound : Sound own s.disk)
    (loaded : nfreemapBlocks s.sb ≠ 0) (role : Owners.role own entry.inodeBid = some .inode)
    (framed : firstFrame (s.disk.read entry.inodeBid) ≠ 0) (chain : FrameChain s.disk entry.inodeBid fs)
    (free : 128 * missingFrames s entry length ≤ (s.disk.read 1).clearCount) :
    ∃ own' s' fs', resizeStage s fd length = .ok s' ∧ Resized entry length fs own s fs' own' s' ∧
      OtherFds fd s s' ∧ (s'.fdtable fd).cur = entry.cur := by
  have members := chain.mem sound role
  have small := sound.role_lt role
  have notMap := sound.role_ne_one role
  by_cases larger : toU32 (length + entry.cur) > size (s.disk.read entry.inodeBid)
  · have missing : missingFrames s entry length =
        (newFrames (toU32 (length + entry.cur)) - oldFrames (size (s.disk.read entry.inodeBid))).toNat := if_pos larger
    obtain ⟨own₁, s₁, fs', run, sound₁, grows₁, chain₁, roles, len, inodes, unchanged, hole, count, ext₁, bytes, full⟩ :=
      @growFile_ok own (s.setFd fd { entry with inode := s.disk.read entry.inodeBid }) fs entry.inodeBid
        (missingFrames s entry length) sound loaded role framed chain free
    have file := FileGrows.setSize (n := toU32 (length + entry.cur)) sound₁ role grows₁ inodes
    simp only [setFd_disk] at run chain₁ file hole count bytes
    have keep : ∀ b < 4096, b ≠ entry.inodeBid → (s₁.disk.write entry.inodeBid (setSize (s.disk.read entry.inodeBid)
        (toU32 (length + entry.cur)))).read b = s₁.disk.read b := fun b hb other =>
      Image.read_write_of_ne _ _ (by omega)
    have keepFrame : ∀ f ∈ fs', (s₁.disk.write entry.inodeBid (setSize (s.disk.read entry.inodeBid)
        (toU32 (length + entry.cur)))).read f = s₁.disk.read f := by
      intro f m
      apply keep f (sound₁.role_lt (roles f m).1)
      intro same
      have role' := grows₁.role role
      rw [← same, (roles f m).1] at role'
      cases role'
    have table : ∀ i, s₁.fdtable i = if i = fd then { entry with inode := s.disk.read entry.inodeBid } else s.fdtable i :=
      fun i => by rw [grows₁.fdtable]; rfl
    refine ⟨own₁, _, fs', ?_, ⟨⟨file.sound, file.grows.setFdtable s.fdtable s.fdtable rfl, file.first,
      file.name, inodes⟩, ?_, len, fun f m => (roles f m).2.1,
      fun f m free j hj => ?_, fun c n hc inside => ?_, ?_, fun zero => ?_, fun keeps => ?_, ?_, fun q hq => ?_,
      fun some k low high => ?_⟩, ⟨fun i => ?_, fun i other => ?_⟩, ?_⟩
    · rw [resizeStage, here]
      rw [if_pos larger, sfsResizeFile, setFd_self, setFd_disk, ← missing, run, ok_bind]
    · unfold FrameChain
      dsimp only
      rw [file.first]
      exact Chain.congr chain₁ fun f m => by rw [frameNext, frameNext, keepFrame f m]
    · show own (content ((s₁.disk.write _ _).read f) j) = none
      rw [keepFrame f m]
      exact (roles f m).2.2 free j hj
    · by_cases empty : n = 0
      · subst empty
        simp [holesAt, Sfs.holes, visit]
      · have fits := inside.resolve_left empty
        rw [holesAt_congr keepFrame fits]
        by_cases zero : missingFrames s entry length = 0
        · obtain ⟨rfl, rfl, _⟩ := unchanged zero
          rw [if_pos zero]
          rfl
        · rw [if_neg zero]
          exact hole c n hc zero fits
    · dsimp only
      rw [keep 1 (by decide) notMap.symm]
      exact count
    · obtain ⟨rfl, rfl, rfl⟩ := unchanged zero
      exact ⟨rfl, rfl, keep⟩
    · refine (ext₁ keeps).trans (extends_write sound₁ small fun l alive inside => ?_)
      obtain ⟨inode', rfl⟩ := hostKind_inode (live_cases alive inside (grows₁.role role))
      obtain rfl : inode' = entry.inodeBid := inside
      have unchanged : s₁.disk.read entry.inodeBid = s.disk.read entry.inodeBid :=
        grows₁.kept (owned_of_role role) fun file => by
          rcases file.role with h | h
          · rw [h] at role; cases role
          · rw [h] at role; cases role
      show firstFrame (setSize (s.disk.read entry.inodeBid) _) = firstFrame (s₁.disk.read entry.inodeBid)
      rw [firstFrame_setSize, unchanged]
    · dsimp only
      rw [Image.read_write, size_setSize (by unfold toU32; omega), Nat.max_eq_right (by omega)]
    · refine (byteAt_congr keepFrame (fun k hk named => ?_) hq).trans (bytes q hq)
      obtain ⟨f, -, owned⟩ := entryAt_owned sound₁ (fun f m => (roles f m).1) hk named
      refine keep _ (sound₁.role_lt (role_of_own owned)) fun same => ?_
      have role' := grows₁.role role
      rw [← same, role_of_own owned] at role'
      cases role'
    · rw [entryAt_congr_frames keepFrame high]
      exact full some k low high
    · dsimp only
      rw [table i]
      split
      · rename_i same
        rw [same, here]
        exact ⟨rfl, rfl, rfl⟩
      · exact ⟨rfl, rfl, rfl⟩
    · dsimp only
      rw [table i, if_neg other]
    · dsimp only
      rw [table fd, if_pos rfl]
  · have none : missingFrames s entry length = 0 := if_neg larger
    refine ⟨own, s, fs, ?_, ⟨⟨sound, Grows.refl _ _ _, rfl, rfl, fun _ inode => inode⟩, chain,
      by rw [none, framesAfter, if_pos rfl],
      fun f m _ => (members f m).2, fun f m free => absurd free (owned_of_role (members f m).1),
      fun c n _ _ => by rw [if_pos none], by rw [none]; omega, fun _ => ⟨rfl, rfl, fun _ _ _ => rfl⟩,
      fun _ => .refl .., (Nat.max_eq_left (by omega)).symm, fun q _ => (if_pos (.inl none)).symm,
      fun some => absurd none some⟩, ⟨fun i => ⟨rfl, rfl, rfl⟩, fun i _ => rfl⟩, by rw [here]⟩
    rw [resizeStage, here]
    exact if_neg larger

/-! ### Copying -/

theorem toCopy_le {offset remaining : Nat} : toCopy offset remaining ≤ remaining := by
  unfold toCopy
  split
  · split <;> omega
  · split <;> omega

theorem toCopy_cases {offset remaining : Nat} (h : offset < 512) :
    (toCopy offset remaining = remaining ∧ offset + remaining ≤ 512) ∨
      (toCopy offset remaining = 512 - offset ∧ 512 < offset + remaining) ∨
      (toCopy offset remaining = 512 - offset ∧ offset + remaining = 512) := by
  unfold toCopy
  split
  · split <;> omega
  · split <;> omega

theorem writeLoop_ok (buf : List UInt8) {bids : List Nat} (remaining offset cur : Nat) (sound : Sound own s.disk)
    (roles : ∀ b ∈ bids, Owners.role own b = some .data) (inBlock : offset < 512)
    (inside : remaining = 0 ∨ offset + remaining ≤ 512 * bids.length) (source : remaining ≤ buf.length)
    (position : cur + remaining < 4294967296) :
    ∃ d, writeLoop buf bids remaining offset cur s.disk = .ok (cur + remaining, d) ∧ Sound own d ∧
      Grows (· ∈ bids) own own s { s with disk := d } := by
  induction bids generalizing s remaining offset cur with
  | nil =>
    obtain rfl : remaining = 0 := by simp only [List.length_nil] at inside; omega
    exact ⟨s.disk, rfl, sound, Grows.refl _ _ _⟩
  | cons b bids ih =>
    cases remaining with
    | zero => exact ⟨s.disk, rfl, sound, Grows.refl _ _ _⟩
    | succ remaining =>
      have role := roles b (List.mem_cons_self ..)
      have bound : toCopy offset (remaining + 1) ≤ remaining + 1 := toCopy_le
      have shape := @toCopy_cases offset (remaining + 1) inBlock
      have copied := @strncpy_ok buf (toCopy offset (remaining + 1)) (by omega)
      rw [writeLoop, copied, ok_bind]
      dsimp only
      generalize (s.disk.read b).patch offset _ = v
      have writes := Grows.write sound (sound.role_lt role) (sound.role_ne_one role) v
      obtain ⟨d, run, sound', grows⟩ := @ih { s with disk := s.disk.write b v } (remaining + 1 - toCopy offset (remaining + 1)) 0
        (cur + toCopy offset (remaining + 1)) (sound.write_data role v) (fun c m => roles c (List.mem_cons_of_mem _ m))
        (by decide)
        (by
          simp only [List.length_cons] at inside
          omega)
        (by omega) (by omega)
      refine ⟨d, ?_, sound', ?_⟩
      · have wrap : toU32 ((cur : Int) + (toCopy offset (remaining + 1) : Nat)) = cur + toCopy offset (remaining + 1) := by
          unfold toU32
          omega
        rw [wrap, run]
        congr 2
        omega
      · exact (writes.mono fun c same => by rw [same]; exact List.mem_cons_self ..).trans grows
          fun c _ m => List.mem_cons_of_mem _ m

/-! ### The call -/

theorem numBlocks_nat {cur length : Nat} (position : cur + length < 4294967296) :
    numBlocks cur length = (cur + length) / 512 - cur / 512 + 1 := by
  unfold numBlocks toU32
  omega

theorem numBlocks_eq {cur : Nat} {length : Int} (nonneg : 0 ≤ length) (position : cur + length.toNat < 4294967296) :
    numBlocks cur (toU32 length) = (cur + length.toNat) / 512 - cur / 512 + 1 := by
  have cast : toU32 length = length.toNat := by
    unfold toU32
    omega
  rw [cast, numBlocks_nat position]

theorem toU32_natCast {n : Nat} (h : n < 4294967296) : toU32 n = n := by
  unfold toU32; omega

theorem toU32_add {a b : Nat} (h : a + b < 4294967296) : toU32 ((a : Int) + b) = a + b := by
  unfold toU32; omega

/-- A write in the first frame stays inside its objects when there are enough free blocks for its holes. -/
theorem writeRoom_firstFrame {cap : Nat} {entry : Fd} {n : Nat} {fs : List Nat}
    (chain : FrameChain s.disk entry.inodeBid fs) (framed : firstFrame (s.disk.read entry.inodeBid) ≠ 0)
    (position : entry.cur + n < 127 * 512) (ids : numBlocks entry.cur n ≤ cap)
    (free : holes (s.disk.read (firstFrame (s.disk.read entry.inodeBid))) (entry.cur / 512) (numBlocks entry.cur n) ≤
      (s.disk.read 1).clearCount) : WriteRoom cap s entry n fs := by
  have none := @missingFrames_small s entry n (by omega)
  have cast : toU32 (n : Int) = n := toU32_natCast (by omega)
  have count : numBlocks entry.cur n = (entry.cur + n) / 512 - entry.cur / 512 + 1 := numBlocks_nat (by omega)
  have start : entry.cur / 512 % 127 = entry.cur / 512 := Nat.mod_eq_of_lt (by omega)
  obtain ⟨rest, rfl⟩ := chain.first framed
  refine ⟨chain, Or.inr ?_, ?_, by rw [cast]; exact ids, by omega⟩
  · rw [none, framesAfter, if_pos rfl, cast, start, count, List.length_cons]
    omega
  · have whole : visit (numBlocks entry.cur n) (entry.cur / 512) = numBlocks entry.cur n := by
      unfold visit SFS_FRAME_COUNT
      omega
    unfold blocksNeeded
    dsimp only
    rw [none, if_pos rfl, cast, start, holesAt_cons (by omega), whole, Nat.sub_self]
    simp only [holesAt, List.range'_zero, List.filter_nil, List.length_nil, Nat.mul_zero, Nat.zero_add, Nat.add_zero]
    exact free

/-- The blocks attached by a write without new frames are entries of its frames. -/
def OnlyEntries (fs : List Nat) (own own' : Owners) (d : Image) : Prop :=
  ∀ b, own b = none → own' b ≠ none → ∃ f ∈ fs, ∃ j < SFS_FRAME_COUNT, content (d.read f) j = b

/-- The stages of a write. The inode block is the one the resize stage leaves. -/
theorem sfsWriteWith_stages {cap : Nat} {fd : Int} {slot : Fin 32} {entry : Fd} (buf : List UInt8) {length : Int}
    (index : fdIndex fd = .ok slot) (here : s.fdtable slot = entry) (sound : Sound own s.disk)
    (loaded : nfreemapBlocks s.sb ≠ 0) (role : Owners.role own entry.inodeBid = some .inode)
    (framed : firstFrame (s.disk.read entry.inodeBid) ≠ 0) (room : WriteRoom cap s entry length fs)
    (source : length ≤ buf.length) :
    ∃ own' s₁ s', resizeStage s slot length = .ok s₁ ∧ sfsWriteWith cap s fd buf length = .ok (length.toNat, s') ∧
      s'.disk.read entry.inodeBid = s₁.disk.read entry.inodeBid ∧ FileGrows entry.inodeBid own s own' s' ∧
      OtherFds slot s s' ∧ (s'.fdtable slot).cur = entry.cur + length.toNat ∧
      (KeepsFrames s entry length → layout.Extends entry.inodeBid own (Loc.read s.disk) own' (Loc.read s'.disk)) ∧
      (missingFrames s entry length = 0 → FrameChain s'.disk entry.inodeBid fs ∧ OnlyEntries fs own own' s'.disk) := by
  have free := room.free
  unfold blocksNeeded at free
  dsimp only at free
  obtain ⟨own₁, s₁, fs₁, run₁, resized, fds₁, cur₁⟩ := resizeStage_ok length here sound loaded role framed room.chain
    (by omega)
  have inside : numBlocks entry.cur (toU32 length) = 0 ∨
      entry.cur / 512 % 127 + numBlocks entry.cur (toU32 length) ≤ 127 * fs₁.length := by
    rw [resized.length_eq]
    exact room.inside
  have hole := resized.holes (entry.cur / 512 % 127) _ (Nat.mod_lt _ (by decide)) inside
  have count := resized.count
  have role₁ := resized.file.grows.role role
  have loaded₁ : nfreemapBlocks s₁.sb ≠ 0 := by rw [show s₁.sb = s.sb from resized.file.grows.sb]; exact loaded
  have entry₁ : (s₁.fdtable slot).inodeBid = entry.inodeBid := by rw [← here]; exact (fds₁.files slot).1
  obtain ⟨own₂, s₂, run₂, attached, named, -⟩ := sfsGetFileContent_ok cap _ _ _ resized.file.sound loaded₁ entry₁ role₁
    resized.chain inside (by omega) room.ids
  have roles₁ : ∀ f ∈ fs₁, Owners.role own₁ f = some .frame := fun f m => (resized.chain.mem resized.file.sound role₁ f m).1
  have role₂ := attached.grows.role role₁
  -- The ids that were collected are entries of the file's frames.
  have collected : ∀ b ∈ (List.range' (entry.cur / 512 % 127) (numBlocks entry.cur (toU32 length))).map (entryAt s₂.disk fs₁),
      ∃ f ∈ fs₁, ∃ j < SFS_FRAME_COUNT, content (s₂.disk.read f) j = b ∧ own₂ b = some (.content f j) := by
    intro b member
    obtain ⟨p, range, rfl⟩ := List.mem_map.mp member
    obtain ⟨low, high⟩ := List.mem_range'_1.mp range
    have index : p / 127 < fs₁.length := by
      rcases inside with none | fits <;> omega
    have some := named p low high
    rw [entryAt, List.getD_eq_getElem?_getD, List.getElem?_eq_getElem index, Option.getD_some] at some ⊢
    have member := List.getElem_mem index
    have hj : p % 127 < SFS_FRAME_COUNT := Nat.mod_lt _ (by decide)
    exact ⟨_, member, _, hj, rfl, attached.sound.content_owned (attached.grows.role (roles₁ _ member)) hj some⟩
  have dataRoles : ∀ b ∈ (List.range' (entry.cur / 512 % 127) (numBlocks entry.cur (toU32 length))).map (entryAt s₂.disk fs₁),
      Owners.role own₂ b = some .data := by
    intro b member
    obtain ⟨_, _, _, _, _, owned⟩ := collected b member
    exact role_of_own owned
  obtain ⟨d, run₃, sound₃, copies⟩ :=
    writeLoop_ok buf length.toNat (entry.cur % 512) entry.cur attached.sound dataRoles (Nat.mod_lt _ (by decide))
    (by
      rw [List.length_map, List.length_range']
      by_cases none : length.toNat = 0
      · exact Or.inl none
      · rw [numBlocks_eq (by omega) room.position]
        omega)
    (by omega) room.position
  have keep : ∀ b k, Owners.role own₂ b = some k → k ≠ .data → d.read b = s₂.disk.read b := fun b k kind other =>
    copies.kept (owned_of_role kind) fun m => other (Option.some.inj (kind.symm.trans (dataRoles b m)))
  have keepInode : d.read entry.inodeBid = s₁.disk.read entry.inodeBid := by
    rw [keep _ _ role₂ (by decide)]
    apply attached.grows.kept (owned_of_role role₁)
    intro m
    have := roles₁ _ m
    rw [role₁] at this
    cases this
  have grows : Grows (fun b => b = entry.inodeBid ∨ InFile own entry.inodeBid b) own own₂ s
      { s₂ with disk := d, fdtable := s.fdtable } := by
    refine (resized.file.grows.trans (attached.grows.setFdtable s.fdtable s.fdtable rfl) fun b used m => ?_).trans
      (copies.setFdtable s.fdtable s.fdtable rfl) fun b used m => ?_
    · exact Or.inr (resized.known b m used)
    · obtain ⟨f, member, j, hj, entry', owned⟩ := collected b m
      by_cases old : own f = none
      · refine absurd ?_ used
        rcases attached.entry f member j with same | ⟨_, new⟩
        · rw [← entry', same]
          exact resized.new f member old j hj
        · rw [entry'] at new
          exact by_contra fun some => resized.file.grows.owned some new
      · obtain ⟨l, before⟩ := Option.ne_none_iff_exists'.mp used
        obtain rfl : l = .content f j :=
          Option.some.inj ((attached.grows.grow (resized.file.grows.grow before)).symm.trans owned)
        exact Or.inr (.content before (resized.known f member old))
  have table : s₂.fdtable = s₁.fdtable := attached.grows.fdtable
  refine ⟨own₂, s₁, { s₂.setFd slot { s₂.fdtable slot with cur := entry.cur + length.toNat } with disk := d }, run₁, ?_,
    keepInode, ⟨sound₃, grows, ?_, ?_, fun i inode => resized.file.inodes i (attached.sameInodes i inode)⟩,
    ⟨fun i => ?_, fun i other => ?_⟩, ?_, fun keeps => ?_, fun zero => ⟨?_, fun b unowned used => ?_⟩⟩
  · rw [sfsWriteWith, index, ok_bind]
    dsimp only
    rw [run₁, ok_bind, here, run₂, ok_bind]
    dsimp only
    rw [run₃, ok_bind]
  · show firstFrame (d.read entry.inodeBid) = _
    rw [keepInode, resized.file.first]
  · show fileName (d.read entry.inodeBid) = _
    rw [keepInode, resized.file.name]
  · show SameFile _ ((s₂.setFd slot _).fdtable i)
    by_cases same : i = slot
    · subst same
      rw [setFd_self, table]
      exact fds₁.files i
    · rw [setFd_of_ne _ _ same, table]
      exact fds₁.files i
  · show (s₂.setFd slot _).fdtable i = _
    rw [setFd_of_ne _ _ other, table, fds₁.others i other]
  · show ((s₂.setFd slot _).fdtable slot).cur = _
    rw [setFd_self]
  · have below := resized.chain.anchored resized.file.sound role₁
    refine ((resized.ext keeps).trans (attached.ext resized.file.sound roles₁ below)).trans
      ⟨id, fun l holds => ?_, fun b free used => absurd free used⟩
    obtain ⟨kind, hosted⟩ := Option.isSome_iff_exists.mp holds.1.1
    have role' : Owners.role own₂ l.host = some kind := holds.1.2.trans hosted
    rw [Loc.read, Loc.read, ← keep _ kind role' fun data => hostKind_ne_data l (data ▸ hosted)]
  · obtain ⟨-, rfl, -⟩ := resized.same zero
    unfold FrameChain
    dsimp only
    rw [keepInode]
    apply Chain.congr resized.chain
    intro f m
    rw [frameNext, frameNext, keep f _ (attached.grows.role (roles₁ f m)) (by decide), attached.next f m]
  · obtain ⟨rfl, rfl, -⟩ := resized.same zero
    obtain ⟨-, f, member, j, hj, -, entry'⟩ := attached.fresh b unowned used
    refine ⟨f, member, j, hj, ?_⟩
    show content (d.read f) j = b
    rw [keep f _ (attached.grows.role (roles₁ f member)) (by decide), entry']

theorem sfsWriteWith_ok {cap : Nat} {fd : Int} {slot : Fin 32} {entry : Fd} (buf : List UInt8) {length : Int}
    (index : fdIndex fd = .ok slot) (here : s.fdtable slot = entry) (sound : Sound own s.disk)
    (loaded : nfreemapBlocks s.sb ≠ 0) (role : Owners.role own entry.inodeBid = some .inode)
    (framed : firstFrame (s.disk.read entry.inodeBid) ≠ 0) (room : WriteRoom cap s entry length fs)
    (source : length ≤ buf.length) :
    ∃ own' s', sfsWriteWith cap s fd buf length = .ok (length.toNat, s') ∧ FileGrows entry.inodeBid own s own' s' ∧
      OtherFds slot s s' ∧ (s'.fdtable slot).cur = entry.cur + length.toNat ∧
      (KeepsFrames s entry length → layout.Extends entry.inodeBid own (Loc.read s.disk) own' (Loc.read s'.disk)) ∧
      (missingFrames s entry length = 0 → FrameChain s'.disk entry.inodeBid fs ∧ OnlyEntries fs own own' s'.disk) := by
  obtain ⟨own', s₁, s', -, run, -, rest⟩ := sfsWriteWith_stages buf index here sound loaded role framed room source
  exact ⟨own', s', run, rest⟩

end StorageStack.Sfs
