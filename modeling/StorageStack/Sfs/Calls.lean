import StorageStack.Lib.Runs
import StorageStack.Sfs.DirectoryList
import StorageStack.Sfs.ReadFile
import StorageStack.Sfs.RemoveFile

/-!
# Runs of calls

All calls of the file system as one type, with the descriptors that still stand for a file. `Call.Fine` says
what a call relies on in the state it is made in; a fine call returns and keeps the state healthy.
-/

namespace StorageStack.Sfs
open Lib CString

/-- A call. Where a `Block` comes first it is what an uninitialised local holds. -/
inductive Call where
  | mkfs
  | printInfo
  | mkdir (temp : Block) (dirname : CString)
  | rmdir (dirname : CString)
  | lsdir
  | ls
  | openFile (inode : Block) (dirname name : CString)
  | close (fd : Int)
  | remove (fd : Int)
  /-- With `cap`, the array of ids has that length instead of its own. -/
  | write (cap : Option Nat) (fd : Int) (buf : List UInt8) (length : Int)
  | read (fd : Int) (buf : List UInt8) (length : Int)
  | seek (fd relative loc : Int)
  | eof (fd : Int)

def Call.run (s : State) : Call → Outcome (Int × State)
  | mkfs => .ok (0, sfsMkfs s)
  | printInfo => .ok (0, sfsPrintInfo s)
  | mkdir temp dirname => sfsMkdir s temp dirname
  | rmdir dirname => sfsRmdir s dirname
  | lsdir => sfsLsdir s
  | ls => sfsLs s
  | openFile inode dirname name => sfsOpen s inode dirname name
  | close fd => sfsClose s fd
  | remove fd => sfsRemove s fd
  | write none fd buf length => sfsWrite s fd buf length
  | write (some cap) fd buf length => sfsWriteWith cap s fd buf length
  | read fd buf length => do
    let (r, _, s) ← sfsRead s fd buf length
    .ok (r, s)
  | seek fd relative loc => sfsSeek s fd relative loc
  | eof fd => sfsEof s fd

/-- A state, and which descriptors were returned by `sfs_open` for a file that was not removed since. -/
structure World where
  state : State
  live : Fin 32 → Bool

/-- The live descriptors after a call that returned `r`. -/
def Call.track (w : World) (r : Int) : Call → Fin 32 → Bool
  | mkfs => fun _ => false
  | openFile .. =>
    match fdIndex r with
    | .ok fd => fun i => i = fd ∨ w.live i
    | .error _ => w.live
  | remove fd =>
    match fdIndex fd with
    | .ok slot => fun i => w.live i ∧ (w.state.fdtable i).inodeBid ≠ (w.state.fdtable slot).inodeBid
    | .error _ => w.live
  | _ => w.live

def Call.step (c : Call) (w : World) : Outcome World := do
  let (r, s) ← c.run w.state
  .ok ⟨s, c.track w r⟩

/-! ### What a call relies on -/

def Indexed (fd : Int) : Prop := 0 ≤ fd ∧ fd < 32

/-- The descriptor is one that `sfs_open` returned, and its file was not removed since. -/
def World.Live (w : World) (fd : Int) (slot : Fin 32) : Prop := fdIndex fd = .ok slot ∧ w.live slot = true

/-- A new directory needs a loaded superblock, room for its name and a free block. -/
def MkdirFine (s : State) (dirname : CString) : Prop :=
  nfreemapBlocks s.sb ≠ 0 ∧ dirname.bytes.length ≤ 507 ∧ (sfsFindDir s dirname = .ok 0 → 0 < (s.disk.read 1).clearCount)

/-- The directory exists; a new file needs room for its name and three free blocks. -/
def OpenFine (s : State) (dirname name : CString) : Prop :=
  ∃ dirBid, sfsFindDir s dirname = .ok dirBid ∧ dirBid ≠ 0 ∧ name.bytes.length ≤ 503 ∧
    ((∀ k < SFS_DB_NINODES, ¬ Holds s.disk (s.disk.read dirBid) name.bytes k) → 3 ≤ (s.disk.read 1).clearCount)

def WriteFine (cap : Nat) (s : State) (entry : Fd) (buf : List UInt8) (length : Int) : Prop :=
  length ≤ buf.length ∧ ∃ fs, WriteRoom cap s entry length fs

def Call.Fine (w : World) : Call → Prop
  | mkfs => True
  | printInfo => True
  | mkdir _ dirname => MkdirFine w.state dirname
  | rmdir _ => True
  | lsdir => True
  | ls => True
  | openFile _ dirname name => OpenFine w.state dirname name
  | close fd => Indexed fd
  | remove fd => ∃ slot, w.Live fd slot ∧ (w.state.fdtable slot).inodeBid < SFS_DB_NINODES
  | write none fd buf length => ∃ slot, w.Live fd slot ∧ 0 < numBids length ∧
      WriteFine (numBids length).toNat w.state (w.state.fdtable slot) buf length
  | write (some cap) fd buf length => ∃ slot, w.Live fd slot ∧ WriteFine cap w.state (w.state.fdtable slot) buf length
  | read fd buf length => ∃ slot, w.Live fd slot ∧ ∃ fs, ReadRoom w.state (w.state.fdtable slot) buf length fs
  | seek fd _ loc => Indexed fd ∧ (loc = 0 ∨ loc = 1 ∨ loc = 2)
  | eof fd => Indexed fd

/-- The call frees what it unlinks: a directory that goes is empty, a new file gets an empty slot, the second
store of `sfs_remove` hits no other file, and a file that gets new frames had one frame. -/
def Call.Thrifty (w : World) : Call → Prop
  | rmdir dirname => ∀ dirBid, sfsFindDir w.state dirname = .ok dirBid → dirBid ≠ 0 →
      ∀ k < SFS_DB_NINODES, inodes (w.state.disk.read dirBid) k = 0
  | openFile _ dirname name => ∀ dirBid, sfsFindDir w.state dirname = .ok dirBid → SlotFor w.state dirBid name
  | remove fd => ∀ slot, fdIndex fd = .ok slot → SlotSpared w.state.disk (w.state.fdtable slot)
  | write _ fd _ length => ∀ slot, fdIndex fd = .ok slot → KeepsFrames w.state (w.state.fdtable slot) length
  | _ => True

/-! ### Healthy worlds -/

structure Serves (own : Owners) (w : World) : Prop where
  healthy : Healthy own w.state
  live : ∀ i, w.live i = true → LiveFd own (w.state.fdtable i)

variable {own own' : Owners} {s s' : State} {w : World} {fs : List Nat}

theorem fdIndex_of_indexed {fd : Int} (h : Indexed fd) : ∃ slot, fdIndex fd = .ok slot := ⟨_, dif_pos h⟩

theorem fdIndex_val (fd : Fin 32) : fdIndex (fd.val : Nat) = .ok fd := by
  rw [fdIndex, dif_pos (by omega)]
  rfl

theorem LiveFd.congr {e e' : Fd} (h : LiveFd own e) (same : SameFile e e') : LiveFd own e' := by
  obtain ⟨k, owned⟩ := h.slot
  exact ⟨⟨k, by rw [same.1, same.2.1, owned]⟩, by rw [same.2.1]; exact h.range⟩

theorem Serves.next (serves : Serves own w) (healthy : Healthy own' s') (kept : FilesKept own own')
    (table : ∀ i, SameFile (w.state.fdtable i) (s'.fdtable i)) : Serves own' ⟨s', w.live⟩ :=
  ⟨healthy, fun i live => ((serves.live i live).kept kept).congr (table i)⟩

theorem sameFile_of_eq (h : s'.fdtable = s.fdtable) (i : Fin 32) : SameFile (s.fdtable i) (s'.fdtable i) := by
  rw [h]
  exact ⟨rfl, rfl, rfl⟩

theorem FileGrows.healthy {inode : Nat} (h : Healthy own s) (role : Owners.role own inode = some .inode)
    (grows : FileGrows inode own s own' s') : Healthy own' s' := by
  have zero : s'.disk.read 0 = s.disk.read 0 := grows.grows.kept (by simp [h.sound.boot]) fun touched => by
    rcases touched with same | file
    · exact h.sound.role_ne_zero role (by decide) same.symm
    · rcases file.role with frame | data
      · exact h.sound.role_ne_zero frame (by decide) rfl
      · exact h.sound.role_ne_zero data (by decide) rfl
  have sb : s'.sb = s.sb := grows.grows.sb
  refine ⟨⟨by rw [sb, zero]; exact h.coherent.sb, grows.grows.flushed h.coherent.freemap, by rw [sb]; exact h.coherent.magic,
    by rw [sb]; exact h.coherent.nblocks, by rw [sb]; exact h.coherent.nfreemapBlocks⟩, grows.sound, fun {i} usable => ?_⟩
  have before := grows.inodes i usable
  have old := h.usable before
  by_cases same : i = inode
  · subst same
    exact ⟨by rw [grows.name]; exact old.ends, by rw [grows.first]; exact old.framed⟩
  · rw [show s'.disk.read i = s.disk.read i from grows.grows.kept (owned_of_role before) fun touched => ?_]
    · exact old
    · rcases touched with here | file
      · exact same here
      · rcases file.role with role' | role' <;> rw [before] at role' <;> cases role'

theorem Attached.healthy (h : Healthy own s) (attached : Attached fs own s own' s')
    (roles : ∀ f ∈ fs, Owners.role own f = some .frame) : Healthy own' s' := by
  have zero : s'.disk.read 0 = s.disk.read 0 := attached.grows.kept (by simp [h.sound.boot]) fun m =>
    h.sound.role_ne_zero (roles 0 m) (by decide) rfl
  have sb : s'.sb = s.sb := attached.grows.sb
  refine ⟨⟨by rw [sb, zero]; exact h.coherent.sb, attached.grows.flushed h.coherent.freemap, by rw [sb]; exact h.coherent.magic,
    by rw [sb]; exact h.coherent.nblocks, by rw [sb]; exact h.coherent.nfreemapBlocks⟩, attached.sound, fun {i} usable => ?_⟩
  have before := attached.sameInodes i usable
  rw [attached.grows.kept (owned_of_role before) fun m => by have role := roles i m; rw [before] at role; cases role]
  exact h.usable before

/-! ### One call -/

theorem Call.step_ok {c : Call} {r : Int} {s' : State} (run : c.run w.state = .ok (r, s')) :
    c.step w = .ok ⟨s', c.track w r⟩ := by
  rw [step, run]
  rfl

theorem Call.of_step {c : Call} {w' : World} (step : c.step w = .ok w') : ∃ r, c.run w.state = .ok (r, w'.state) := by
  obtain ⟨⟨r, s⟩, run, same⟩ := bind_ok step
  obtain rfl := Except.ok.inj same
  exact ⟨r, run⟩

theorem write_serves {cap : Nat} {fd : Int} {slot : Fin 32} {buf : List UInt8} {length : Int} (serves : Serves own w)
    (live : w.Live fd slot) (fine : WriteFine cap w.state (w.state.fdtable slot) buf length) :
    ∃ r own' s', sfsWriteWith cap w.state fd buf length = .ok (r, s') ∧ Serves own' ⟨s', w.live⟩ ∧
      (KeepsFrames w.state (w.state.fdtable slot) length → Tight own w.state.disk → Tight own' s'.disk) := by
  obtain ⟨source, fs, room⟩ := fine
  have role := (serves.live slot live.2).role
  obtain ⟨own', s', run, grows, fds, -, ext, -⟩ :=
    sfsWriteWith_ok _ live.1 rfl serves.healthy.sound serves.healthy.coherent.loaded
    role (serves.healthy.usable role).framed room source
  refine ⟨_, own', s', run, serves.next (grows.healthy serves.healthy role) (fun owned _ => grows.grows.grow owned) fds.files,
    fun keeps tight => ?_⟩
  exact tight.extend serves.healthy.sound (fun b hb => (grows.grows.bits b hb).mp) (ext keeps) (owned_of_role role)

theorem setFd_serves {fd : Fin 32} (entry : Fd) (serves : Serves own w)
    (same : (w.state.fdtable fd).inodeBid = entry.inodeBid ∧ (w.state.fdtable fd).dirBid = entry.dirBid) :
    Serves own ⟨w.state.setFd fd entry, w.live⟩ := by
  refine ⟨serves.healthy.setFd fd entry, fun i live => ?_⟩
  have before := serves.live i live
  by_cases here : i = fd
  · subst here
    show LiveFd own ((w.state.setFd i entry).fdtable i)
    rw [setFd_self]
    obtain ⟨k, owned⟩ := before.slot
    exact ⟨⟨k, by rw [← same.1, ← same.2, owned]⟩, by rw [← same.2]; exact before.range⟩
  · show LiveFd own ((w.state.setFd fd entry).fdtable i)
    rw [setFd_of_ne _ _ here]
    exact before

theorem sfsSeek_ok (s : State) {fd : Int} (relative : Int) {loc : Int} (indexed : Indexed fd)
    (known : loc = 0 ∨ loc = 1 ∨ loc = 2) :
    ∃ slot cur, sfsSeek s fd relative loc = .ok (0, s.setFd slot { s.fdtable slot with cur := cur }) := by
  obtain ⟨slot, index⟩ := fdIndex_of_indexed indexed
  obtain ⟨cur, target⟩ : ∃ cur, newCur s slot relative loc = .ok cur := by
    rcases known with rfl | rfl | rfl
    · exact ⟨_, rfl⟩
    · exact ⟨_, rfl⟩
    · exact ⟨_, rfl⟩
  exact ⟨slot, _, by rw [sfsSeek, index, ok_bind, target, ok_bind]⟩

theorem sfsEof_ok {fd : Int} (indexed : Indexed fd) : ∃ r, sfsEof s fd = .ok (r, s) := by
  obtain ⟨slot, index⟩ := fdIndex_of_indexed indexed
  exact ⟨_, by rw [sfsEof, index, ok_bind]⟩

/-- A fine call on a healthy world, formatting excepted. -/
theorem fine_serves {c : Call} (serves : Serves own w) (fine : c.Fine w) (format : c ≠ .mkfs) :
    ∃ w' own', c.step w = .ok w' ∧ Serves own' w' ∧
      (c.Thrifty w → Tight own w.state.disk → Tight own' w'.state.disk) := by
  have healthy := serves.healthy
  cases c with
  | mkfs => exact absurd rfl format
  | printInfo =>
    refine ⟨_, own, Call.step_ok rfl, ?_⟩
    have same : sfsPrintInfo w.state = w.state := by rw [sfsPrintInfo, ← healthy.coherent.sb]
    rw [same]
    exact ⟨serves, fun _ tight => tight⟩
  | mkdir temp dirname =>
    obtain ⟨r, own', s', run, healthy', kept, table, tight⟩ := mkdir_healthy temp healthy fine.2.1 fine.2.2
    exact ⟨_, own', Call.step_ok run, serves.next healthy' kept (sameFile_of_eq table), fun _ => tight⟩
  | rmdir dirname =>
    obtain ⟨r, own', s', run, healthy', kept, table, tight⟩ := rmdir_healthy healthy dirname
    exact ⟨_, own', Call.step_ok run, serves.next healthy' kept (sameFile_of_eq table), tight⟩
  | lsdir =>
    obtain ⟨r, run⟩ := lsdir_healthy healthy
    exact ⟨_, own, Call.step_ok run, serves, fun _ tight => tight⟩
  | ls =>
    obtain ⟨r, run⟩ := ls_healthy healthy
    exact ⟨_, own, Call.step_ok run, serves, fun _ tight => tight⟩
  | openFile inode dirname name =>
    obtain ⟨dirBid, found, present, fits, room⟩ := fine
    obtain ⟨r, own', s', run, healthy', kept, tight, result⟩ := open_healthy inode healthy found present fits room
    refine ⟨_, own', Call.step_ok run, ?_, fun thrifty => tight (thrifty dirBid found)⟩
    rcases result with ⟨-, rfl, rfl⟩ | ⟨fd, -, rfl, others, opened, -⟩
    · exact ⟨healthy', fun i live => (serves.live i live).kept kept⟩
    · refine ⟨healthy', fun i live => ?_⟩
      dsimp only [Call.track] at live
      rw [fdIndex_val] at live
      by_cases new : i = fd
      · rw [new]
        exact opened
      · have before : w.live i = true := by simpa [new] using live
        show LiveFd own' (s'.fdtable i)
        rw [others i new]
        exact (serves.live i before).kept kept
  | close fd =>
    obtain ⟨slot, index⟩ := fdIndex_of_indexed fine
    refine ⟨_, own, Call.step_ok (r := 0) ?_, setFd_serves { w.state.fdtable slot with valid := 0 } serves ⟨rfl, rfl⟩,
      fun _ tight => tight⟩
    rw [Call.run, sfsClose, index, ok_bind]
  | remove fd =>
    obtain ⟨slot, live, small⟩ := fine
    have liveFd := serves.live slot live.2
    obtain ⟨s', run, healthy', table, written, unchanged, freed⟩ := sfsRemove_ok healthy live.1 rfl liveFd small
    refine ⟨_, _, Call.step_ok run, ⟨healthy', fun i still => ?_⟩, fun thrifty =>
      remove_tight healthy liveFd small (thrifty slot live.1) written unchanged freed⟩
    dsimp only [Call.track] at still
    rw [live.1] at still
    have both : w.live i = true ∧ (w.state.fdtable i).inodeBid ≠ (w.state.fdtable slot).inodeBid := by simpa using still
    show LiveFd _ (s'.fdtable i)
    rw [table]
    exact (serves.live i both.1).dropFile both.2
  | write cap fd buf length =>
    cases cap with
    | none =>
      obtain ⟨slot, live, array, fine⟩ := fine
      obtain ⟨r, own', s', run, serves', tight⟩ := write_serves serves live fine
      exact ⟨_, own', Call.step_ok (by rw [Call.run, sfsWrite, if_pos array, run]), serves',
        fun thrifty => tight (thrifty slot live.1)⟩
    | some cap =>
      obtain ⟨slot, live, fine⟩ := fine
      obtain ⟨r, own', s', run, serves', tight⟩ := write_serves serves live fine
      exact ⟨_, own', Call.step_ok run, serves', fun thrifty => tight (thrifty slot live.1)⟩
  | read fd buf length =>
    obtain ⟨slot, live, fs, room⟩ := fine
    have role := (serves.live slot live.2).role
    obtain ⟨r, buf', own', s', run, attached, fds⟩ := sfsRead_ok live.1 rfl healthy.sound healthy.coherent.loaded role room
    have roles : ∀ f ∈ fs, Owners.role own f = some .frame := fun f m => (room.chain.mem healthy.sound role f m).1
    have saved : Tight own w.state.disk → Tight own' s'.disk := fun tight => tight.extend healthy.sound
      (fun b hb => (attached.grows.bits b hb).mp) (attached.ext healthy.sound roles (room.chain.anchored healthy.sound role))
      (owned_of_role role)
    refine ⟨_, own', Call.step_ok (r := r) (by rw [Call.run, run, ok_bind]), ?_, fun _ => saved⟩
    exact serves.next ((attached.healthy healthy roles).congr rfl rfl rfl) (fun owned _ => attached.grows.grow owned) fds.files
  | seek fd relative loc =>
    obtain ⟨slot, cur, run⟩ := sfsSeek_ok w.state relative fine.1 fine.2
    exact ⟨_, own, Call.step_ok (c := .seek fd relative loc) run, setFd_serves _ serves ⟨rfl, rfl⟩, fun _ tight => tight⟩
  | eof fd =>
    obtain ⟨r, run⟩ := sfsEof_ok (s := w.state) fine
    exact ⟨_, own, Call.step_ok (c := .eof fd) run, serves, fun _ tight => tight⟩

/-! ### The start -/

def World.start (s : State) : World := ⟨Sfs.start s, fun _ => false⟩

theorem serves_start (s : State) : Serves bare (World.start s) := by
  have walk := walkable_start s
  refine ⟨⟨walk.coherent, sound_bare walk.chain fun b known => walk.used b (known.imp_right Or.inl),
    fun role => absurd role no_inodes_bare⟩, fun i live => ?_⟩
  cases live

theorem run_serves (s : State) {ok : Call → World → Prop}
    (fine : ∀ c w own, Serves own w → ok c w → c.Fine w ∧ c ≠ .mkfs) (calls : List Call)
    (meets : Meets Call.step ok calls (World.start s)) :
    ∃ w own, runAll Call.step calls (World.start s) = .ok w ∧ Serves own w := by
  obtain ⟨w, run, own, serves⟩ := runAll_keeps (fun w => ∃ own, Serves own w) (fun c w ⟨own, serves⟩ here => by
    obtain ⟨fine, format⟩ := fine c w own serves here
    obtain ⟨w', own', step, serves', -⟩ := fine_serves serves fine format
    exact ⟨w', step, own', serves'⟩) ⟨bare, serves_start s⟩ meets
  exact ⟨w, own, run, serves⟩

theorem free_start (s : State) : 0 < ((World.start s).state.disk.read 1).clearCount := by
  refine @Bytes.clearCount_pos_of_bits 512 _ [0, 1] (fun b _ set => ?_) (by decide)
  have used : ((Sfs.start s).disk.read 1).bit b = true := set
  rw [bit_start] at used
  simpa using used

theorem mkdirFine_first : MkdirFine (Sfs.start .initial) slash :=
  ⟨(serves_start .initial).healthy.coherent.loaded, by decide, fun _ => free_start .initial⟩

theorem openFine_first {r : Int} {s : State} (made : sfsMkdir (Sfs.start .initial) .zero slash = .ok (r, s)) {name : CString}
    (fits : name.bytes.length ≤ 503) : OpenFine s slash name := by
  have facts : check (fun p => check (· != 0) (sfsFindDir p.2 slash) &&
      (List.range 128).all fun k => k == 0 || (p.2.disk.read 1).word k == 0)
      (sfsMkdir (Sfs.start .initial) .zero slash) = true := by
    decide +kernel
  rw [made, check, Bool.and_eq_true] at facts
  obtain ⟨dirBid, found, present⟩ := of_check facts.1
  refine ⟨dirBid, found, bne_iff_ne.mp present, fits, fun _ => ?_⟩
  have clear : 8 * 512 ≤ (s.disk.read 1).clearCount + 32 := Bytes.le_clearCount_of_words fun k inside other => by
    have word := List.all_eq_true.mp facts.2 k (List.mem_range.mpr (by omega))
    simpa [other] using word
  omega

/-! ### One byte in one file -/

def oneOpened : List Call := [.mkdir .zero slash, .openFile .zero slash slash]

/-- The cursor goes back to the front of the file. -/
def oneWritten : List Call := oneOpened ++ [.write (some 1) 0 [97] 1, .seek 0 0 0]

theorem oneOpened_world : ∃ w, runAll Call.step oneOpened (World.start .initial) = .ok w ∧ w.live 0 = true ∧
    (w.state.fdtable 0).cur = 0 ∧ (w.state.disk.read 1).bit 4095 = false := by
  have facts : check (fun w => decide (w.live 0 = true ∧ (w.state.fdtable 0).cur = 0 ∧ (w.state.disk.read 1).bit 4095 = false))
      (runAll Call.step oneOpened (World.start .initial)) = true := by
    decide +kernel
  obtain ⟨w, run, holds⟩ := of_check facts
  exact ⟨w, run, of_decide_eq_true holds⟩

theorem oneOpened_fine : Meets Call.step (fun c w => c.Fine w ∧ c ≠ .mkfs) oneOpened (World.start .initial) := by
  refine ⟨⟨mkdirFine_first, by simp⟩, fun w made => ⟨⟨?_, by simp⟩, fun _ _ => trivial⟩⟩
  obtain ⟨r, run⟩ := Call.of_step made
  exact @openFine_first r w.state run slash (by decide)

/-- One block is enough for the first byte of a file. -/
theorem Serves.first_byte (serves : Serves own w) (live : w.live 0 = true) (cursor : (w.state.fdtable 0).cur = 0)
    (free : 1 ≤ (w.state.disk.read 1).clearCount) : WriteFine 1 w.state (w.state.fdtable 0) [97] 1 := by
  have role := (serves.live 0 live).role
  obtain ⟨fs, chain, -⟩ := serves.healthy.sound.frameChain role
  have one : numBlocks 0 1 = 1 := rfl
  refine ⟨by decide, fs, writeRoom_firstFrame (n := 1) chain (serves.healthy.usable role).framed (by rw [cursor]; decide)
    (by rw [cursor, one]) ?_⟩
  rw [cursor, one]
  exact (holes_le _ _ _).trans free

theorem oneWritten_fine : Meets Call.step (fun c w => c.Fine w ∧ c ≠ .mkfs) oneWritten (World.start .initial) := by
  refine oneOpened_fine.append fun w run => ?_
  obtain ⟨w', run', live, cursor, clear⟩ := oneOpened_world
  obtain rfl := Except.ok.inj (run.symm.trans run')
  obtain ⟨w', own, run', serves⟩ := run_serves .initial (fun c w own _ fine => fine) oneOpened oneOpened_fine
  obtain rfl := Except.ok.inj (run.symm.trans run')
  have fine := serves.first_byte live cursor (Bytes.clearCount_pos (by decide) clear)
  exact ⟨⟨⟨0, ⟨fdIndex_val 0, live⟩, fine⟩, by simp⟩, fun _ _ =>
    ⟨⟨⟨⟨Int.le_refl 0, by decide⟩, .inl rfl⟩, by simp⟩, fun _ _ => trivial⟩⟩

/-- The directory `dirBid` holds one file with one byte, and descriptor 0 is at its front. -/
structure OneByte (w : World) (dirBid : Nat) : Prop where
  live : w.live 0 = true
  found : sfsFindDir w.state slash = .ok dirBid
  dir : firstDir (w.state.disk.read 0) = dirBid
  present : dirBid ≠ 0
  slot : inodes (w.state.disk.read dirBid) 0 = (w.state.fdtable 0).inodeBid
  named : (w.state.fdtable 0).inodeBid ≠ 0
  small : (w.state.fdtable 0).inodeBid < 97
  cursor : (w.state.fdtable 0).cur = 0
  bytes : size (w.state.disk.read (w.state.fdtable 0).inodeBid) = 1
  entry : content (w.state.disk.read (firstFrame (w.state.disk.read (w.state.fdtable 0).inodeBid))) 0 ≠ 0
  stored : (w.state.disk.read
    (content (w.state.disk.read (firstFrame (w.state.disk.read (w.state.fdtable 0).inodeBid))) 0)).get 0 = 97
  free : 4064 ≤ (w.state.disk.read 1).clearCount
  padding : ∀ k : Fin 124, (w.state.disk.read 0).word (4 + k.val) = 0

theorem oneWritten_world : ∃ w dirBid, runAll Call.step oneWritten (World.start .initial) = .ok w ∧ OneByte w dirBid := by
  have facts : check (fun w => check (fun dirBid => decide (w.live 0 = true ∧ firstDir (w.state.disk.read 0) = dirBid ∧ dirBid ≠ 0 ∧
      inodes (w.state.disk.read dirBid) 0 = (w.state.fdtable 0).inodeBid ∧
      (w.state.fdtable 0).inodeBid ≠ 0 ∧ (w.state.fdtable 0).inodeBid < 97 ∧ (w.state.fdtable 0).cur = 0 ∧
      size (w.state.disk.read (w.state.fdtable 0).inodeBid) = 1 ∧
      content (w.state.disk.read (firstFrame (w.state.disk.read (w.state.fdtable 0).inodeBid))) 0 ≠ 0 ∧
      (w.state.disk.read (content (w.state.disk.read (firstFrame (w.state.disk.read (w.state.fdtable 0).inodeBid))) 0)).get 0 = 97 ∧
      (∀ k : Fin 128, k = 0 ∨ (w.state.disk.read 1).word k.val = 0) ∧ ∀ k : Fin 124, (w.state.disk.read 0).word (4 + k.val) = 0))
      (sfsFindDir w.state slash)) (runAll Call.step oneWritten (World.start .initial)) = true := by
    decide +kernel
  obtain ⟨w, run, rest⟩ := of_check facts
  obtain ⟨dirBid, found, holds⟩ := of_check rest
  obtain ⟨live, dir, present, slot, named, small, cursor, bytes, entry, stored, words, padding⟩ := of_decide_eq_true holds
  refine ⟨w, dirBid, run, ⟨live, found, dir, present, slot, named, small, cursor, bytes, entry, stored, ?_, padding⟩⟩
  have clear : 8 * 512 ≤ (w.state.disk.read 1).clearCount + 32 := Bytes.le_clearCount_of_words fun k inside other =>
    (words ⟨k, by omega⟩).resolve_left fun zero => other (congrArg Fin.val zero)
  omega

/-! ### A second file -/

theorem fileF_nonzero : ∀ c ∈ ([102] : List UInt8), c ≠ 0 := by simp

def fileF : CString := ⟨[102], fileF_nonzero⟩

def twoFiles : List Call := oneWritten ++ [.openFile .zero slash fileF]

theorem twoFiles_fine : Meets Call.step (fun c w => c.Fine w ∧ c ≠ .mkfs) twoFiles (World.start .initial) := by
  refine oneWritten_fine.append fun w run => ?_
  obtain ⟨w', dirBid, run', one⟩ := oneWritten_world
  obtain rfl := Except.ok.inj (run.symm.trans run')
  have free := one.free
  exact ⟨⟨⟨dirBid, one.found, one.present, by decide, fun _ => by omega⟩, by simp⟩, fun _ _ => trivial⟩

theorem twoFiles_world : ∃ w dirBid, runAll Call.step twoFiles (World.start .initial) = .ok w ∧
    firstDir (w.state.disk.read 0) = dirBid ∧ dirBid ≠ 0 ∧ w.live 0 = true ∧ (w.state.fdtable 0).inodeBid < 97 ∧
    (∀ k : Fin 2, inodes (w.state.disk.read dirBid) k.val = (w.state.fdtable (k.castLE (by decide))).inodeBid ∧
      (w.state.fdtable (k.castLE (by decide))).inodeBid ≠ 0) ∧
    (w.state.fdtable 0).inodeBid ≠ (w.state.fdtable 1).inodeBid ∧ (w.state.fdtable 0).cur = 0 ∧
    (w.state.disk.read 1).bit 4095 = false := by
  have facts : check (fun w => decide (firstDir (w.state.disk.read 0) ≠ 0 ∧ w.live 0 = true ∧ (w.state.fdtable 0).inodeBid < 97 ∧
      (∀ k : Fin 2, inodes (w.state.disk.read (firstDir (w.state.disk.read 0))) k.val =
          (w.state.fdtable (k.castLE (by decide))).inodeBid ∧ (w.state.fdtable (k.castLE (by decide))).inodeBid ≠ 0) ∧
      (w.state.fdtable 0).inodeBid ≠ (w.state.fdtable 1).inodeBid ∧ (w.state.fdtable 0).cur = 0 ∧
      (w.state.disk.read 1).bit 4095 = false)) (runAll Call.step twoFiles (World.start .initial)) = true := by
    decide +kernel
  obtain ⟨w, run, holds⟩ := of_check facts
  exact ⟨w, _, run, rfl, of_decide_eq_true holds⟩

end StorageStack.Sfs
