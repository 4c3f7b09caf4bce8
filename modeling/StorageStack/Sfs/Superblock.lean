import StorageStack.Sfs.BlockUse
import StorageStack.Sfs.Isolation

/-!
# The superblock

`sfs_mkfs` writes the superblock and then clears its copy in memory, and only `sfs_print_info`, `sfs_lsdir`
and `sfs_ls` load it again. A run that creates nothing in between keeps block 0, and no block that is used
for anything is block 0 or the freemap; a directory that is created in between is written over block 0.
-/

namespace StorageStack.Sfs
open Lib CString

/-- Block 0 is a superblock, and the blocks that can be reached from it or from a live descriptor start at 2. -/
structure Intact (w : World) : Prop where
  magic : magic (w.state.disk.read 0) = SFS_MAGIC
  nblocks : nblocks (w.state.disk.read 0) = 1024
  nfreemapBlocks : nfreemapBlocks (w.state.disk.read 0) = 1
  firstDir : firstDir (w.state.disk.read 0) = 0 ∨
    IsDir w.state.disk (firstDir (w.state.disk.read 0)) ∧ (w.state.disk.read 1).bit (firstDir (w.state.disk.read 0)) = true
  reserved : (w.state.disk.read 1).bit 0 = true ∧ (w.state.disk.read 1).bit 1 = true
  reached : ∀ l, Reached w.state.disk l → l.read w.state.disk ≠ 0 → 2 ≤ l.read w.state.disk
  opened : ∀ i, w.live i = true → 2 ≤ (w.state.fdtable i).dirBid ∧ 2 ≤ (w.state.fdtable i).inodeBid ∧
    ∀ l, ReachedFrom w.state.disk (w.state.fdtable i).inodeBid l → l.read w.state.disk ≠ 0 → 2 ≤ l.read w.state.disk

variable {own : Owners} {w w' : World}

theorem Serves.intact (serves : Serves own w) : Intact w := by
  have coherent := serves.healthy.coherent
  have sound := serves.healthy.sound
  have wf := serves.healthy.wellFormed
  refine ⟨by rw [← coherent.sb]; exact coherent.magic, by rw [← coherent.sb]; exact coherent.nblocks,
    by rw [← coherent.sb]; exact coherent.nfreemapBlocks, ?_, wf.reserved, fun l reach named => (wf.range l reach named).1,
    fun i live => ?_⟩
  · by_cases none : firstDir (w.state.disk.read 0) = 0
    · exact Or.inl none
    · exact Or.inr ⟨⟨.firstDir, .root, rfl, rfl, none⟩, wf.marked .firstDir .root none⟩
  · have fd := serves.live i live
    refine ⟨fd.range.1, sound.two_le fd.role (by decide), fun l reach named => ?_⟩
    rcases (reach.inFile sound fd.role named).role with role | role
    · exact sound.two_le role (by decide)
    · exact sound.two_le role (by decide)

/-- After `sfs_mkfs` the superblock is on the disk only. -/
structure Fresh (w : World) : Prop where
  unloaded : w.state.sb = .zero
  closed : ∀ i, w.live i = false
  loaded : Serves bare ⟨sfsPrintInfo w.state, w.live⟩

theorem Fresh.intact (h : Fresh w) : Intact w := by
  have intact := h.loaded.intact
  exact ⟨intact.magic, intact.nblocks, intact.nfreemapBlocks, intact.firstDir, intact.reserved, intact.reached, intact.opened⟩

def World.formatted (s : State) : World := ⟨sfsMkfs s, fun _ => false⟩

theorem fresh_formatted (s : State) : Fresh (World.formatted s) := ⟨rfl, fun _ => rfl, serves_start s⟩

theorem Fresh.not_live (h : Fresh w) {fd : Int} {slot : Fin 32} : ¬ w.Live fd slot := fun live => by
  have closed := h.closed slot
  rw [live.2] at closed
  cases closed

theorem Fresh.findDir (h : Fresh w) (dirname : CString) : sfsFindDir w.state dirname = .ok 0 := by
  rw [sfsFindDir, h.unloaded, show firstDir .zero = 0 from Bytes.word_zero 3, show steps = 4294967295 + 1 from rfl,
    findDirFrom, if_pos rfl]

theorem Fresh.table {s' : State} (h : Fresh w) (sb : s'.sb = w.state.sb) (map : s'.freemap = w.state.freemap)
    (disk : s'.disk = w.state.disk) : Fresh ⟨s', w.live⟩ := by
  refine ⟨sb.trans h.unloaded, h.closed, ?_, fun i live => ?_⟩
  · exact h.loaded.healthy.congr (by show s'.disk.read 0 = w.state.disk.read 0; rw [disk]) map disk
  · have closed := h.closed i
    rw [show w.live i = true from live] at closed
    cases closed

theorem fine_fresh {c : Call} (h : Fresh w) (fine : c.Fine w) (format : c ≠ .mkfs) :
    ∃ w', c.step w = .ok w' ∧ (Fresh w' ∨ Serves bare w') := by
  cases c with
  | mkfs => exact absurd rfl format
  | printInfo => exact ⟨_, Call.step_ok rfl, Or.inr h.loaded⟩
  | mkdir temp dirname =>
    refine absurd ?_ fine.1
    rw [h.unloaded]
    exact Bytes.word_zero 2
  | rmdir dirname =>
    refine ⟨_, @Call.step_ok w _ (-1) w.state ?_, Or.inl h⟩
    rw [Call.run, sfsRmdir, h.findDir, ok_bind, if_pos (Or.inl rfl)]
  | lsdir =>
    obtain ⟨r, run⟩ := lsdir_healthy h.loaded.healthy
    exact ⟨_, Call.step_ok (c := .lsdir) run, Or.inr h.loaded⟩
  | ls =>
    obtain ⟨r, run⟩ := ls_healthy h.loaded.healthy
    exact ⟨_, Call.step_ok (c := .ls) run, Or.inr h.loaded⟩
  | openFile inode dirname name =>
    obtain ⟨dirBid, found, present, -⟩ := fine
    exact absurd (Except.ok.inj ((h.findDir dirname).symm.trans found)).symm present
  | close fd =>
    obtain ⟨slot, index⟩ := fdIndex_of_indexed fine
    refine ⟨_, @Call.step_ok w _ 0 (w.state.setFd slot { w.state.fdtable slot with valid := 0 }) ?_,
      Or.inl (h.table rfl rfl rfl)⟩
    rw [Call.run, sfsClose, index, ok_bind]
  | remove fd =>
    obtain ⟨slot, live, -⟩ := fine
    exact absurd live h.not_live
  | write cap fd buf length =>
    cases cap with
    | none =>
      obtain ⟨slot, live, -⟩ := fine
      exact absurd live h.not_live
    | some cap =>
      obtain ⟨slot, live, -⟩ := fine
      exact absurd live h.not_live
  | read fd buf length =>
    obtain ⟨slot, live, -⟩ := fine
    exact absurd live h.not_live
  | seek fd relative loc =>
    obtain ⟨slot, cur, run⟩ := sfsSeek_ok w.state relative fine.1 fine.2
    exact ⟨_, Call.step_ok (c := .seek fd relative loc) run, Or.inl (h.table rfl rfl rfl)⟩
  | eof fd =>
    obtain ⟨r, run⟩ := sfsEof_ok (s := w.state) fine
    exact ⟨_, Call.step_ok (c := .eof fd) run, Or.inl h⟩

theorem fine_keeps {c : Call} (inv : Fresh w ∨ ∃ own, Serves own w) (fine : c.Fine w) :
    ∃ w', c.step w = .ok w' ∧ (Fresh w' ∨ ∃ own, Serves own w') := by
  by_cases format : c = .mkfs
  · subst format
    exact ⟨_, Call.step_ok rfl, Or.inl (fresh_formatted w.state)⟩
  rcases inv with fresh | ⟨own, serves⟩
  · obtain ⟨w', step, inv'⟩ := fine_fresh fresh fine format
    exact ⟨w', step, inv'.imp_right fun serves => ⟨bare, serves⟩⟩
  · obtain ⟨w', own', step, serves', -⟩ := fine_serves serves fine format
    exact ⟨w', step, Or.inr ⟨own', serves'⟩⟩

theorem fine_reaches (s : State) (calls : List Call)
    (fine : Meets Call.step (fun c w => c.Fine w) calls (World.formatted s)) :
    ∃ w, runAll Call.step calls (World.formatted s) = .ok w ∧ (Fresh w ∨ ∃ own, Serves own w) :=
  runAll_keeps (fun w => Fresh w ∨ ∃ own, Serves own w) (fun _ _ inv fine => fine_keeps inv fine) (Or.inl (fresh_formatted s)) fine

/-- As long as the superblock in memory is zero, only `sfs_lsdir` and `sfs_ls` get to a block. -/
theorem Fresh.two_le {c : Call} {k : Kind} {b : Nat} (h : Fresh w) (fine : c.Fine w) (opened : c.Opened w)
    (use : c.Uses w.state k b) : 2 ≤ b := by
  have none : firstDir w.state.sb = 0 := by rw [h.unloaded]; exact Bytes.word_zero 3
  cases c with
  | mkfs => exact use.elim
  | printInfo => exact use.elim
  | mkdir temp dirname =>
    refine absurd ?_ fine.1
    rw [h.unloaded]
    exact Bytes.word_zero 2
  | rmdir dirname => exact absurd none use.2.start_ne_zero
  | lsdir => exact @Serves.two_le bare b k _ .lsdir h.loaded trivial trivial use
  | ls => exact @Serves.two_le bare b k _ .ls h.loaded trivial trivial use
  | openFile inode dirname name =>
    obtain ⟨dirBid, found, present, -⟩ := fine
    exact absurd (Except.ok.inj ((h.findDir dirname).symm.trans found)).symm present
  | close fd => exact use.elim
  | remove fd =>
    obtain ⟨slot, live, -⟩ := fine
    exact absurd live h.not_live
  | write cap fd buf length =>
    cases cap with
    | none =>
      obtain ⟨slot, live, -⟩ := fine
      exact absurd live h.not_live
    | some cap =>
      obtain ⟨slot, live, -⟩ := fine
      exact absurd live h.not_live
  | read fd buf length =>
    obtain ⟨slot, live, -⟩ := fine
    exact absurd live h.not_live
  | seek fd relative loc =>
    obtain ⟨slot, live⟩ := opened use.1
    exact absurd live h.not_live
  | eof fd =>
    obtain ⟨slot, live⟩ := opened
    exact absurd live h.not_live

/-- The call takes no block below 2 for a directory, an inode, a frame or a content block. -/
def Call.Apart (c : Call) (w : World) : Prop := ∀ k b, c.Uses w.state k b → 2 ≤ b

/-- After `sfs_mkfs` and any run of fine calls through live descriptors the superblock is intact, and no call of
the run used block 0 or 1. -/
theorem fine_intact (s : State) (calls : List Call)
    (fine : Meets Call.step (fun c w => c.Fine w ∧ c.Opened w) calls (World.formatted s)) :
    (∃ w, runAll Call.step calls (World.formatted s) = .ok w ∧ Intact w) ∧ Meets Call.step Call.Apart calls (World.formatted s) := by
  refine ⟨?_, fine.imp (fun w => Fresh w ∨ ∃ own, Serves own w) (fun c w inv here k b use => ?_) (fun c w w' inv here step => ?_)
    (Or.inl (fresh_formatted s))⟩
  · obtain ⟨w, run, inv⟩ := runAll_keeps _ (fun _ _ inv here => fine_keeps inv here.1) (Or.inl (fresh_formatted s)) fine
    rcases inv with fresh | ⟨own, serves⟩
    · exact ⟨w, run, fresh.intact⟩
    · exact ⟨w, run, serves.intact⟩
  · rcases inv with fresh | ⟨own, serves⟩
    · exact fresh.two_le here.1 here.2 use
    · exact serves.two_le here.1 here.2 use
  · obtain ⟨w'', step', inv'⟩ := fine_keeps inv here.1
    obtain rfl := Except.ok.inj (step.symm.trans step')
    exact inv'

/-- The file that was written is measured through its descriptor. -/
def measured : List Call := .printInfo :: (twoFiles ++ [.seek 0 0 2, .eof 0])

theorem measured_intact : (∃ w, runAll Call.step measured (World.formatted .initial) = .ok w ∧ Intact w) ∧
    Meets Call.step Call.Apart measured (World.formatted .initial) := by
  refine fine_intact .initial measured ⟨⟨trivial, trivial⟩, fun w step => ?_⟩
  obtain rfl : World.start .initial = w := Except.ok.inj step
  refine .append (.and (twoFiles_fine.imp (fun _ => True) (fun _ _ _ here => here.1) (fun _ _ _ _ _ _ => trivial) trivial) ?_)
    fun w run => ?_
  · exact ⟨trivial, fun _ _ => ⟨trivial, fun _ _ => ⟨trivial, fun _ _ => ⟨fun other => absurd other (by decide), fun _ _ =>
      ⟨trivial, fun _ _ => trivial⟩⟩⟩⟩⟩
  · obtain ⟨w', dirBid, run', -, -, live, -⟩ := twoFiles_world
    obtain rfl := Except.ok.inj (run.symm.trans run')
    have first : Indexed 0 := ⟨Int.le_refl 0, by decide⟩
    refine ⟨⟨⟨first, .inr (.inr rfl)⟩, fun _ => ⟨0, fdIndex_val 0, live⟩⟩, fun w₁ sought => ⟨⟨first, 0, fdIndex_val 0, ?_⟩,
      fun _ _ => trivial⟩⟩
    obtain ⟨slot, cur, moved⟩ := sfsSeek_ok w.state 0 first (.inr (.inr rfl))
    obtain rfl := Except.ok.inj ((Call.step_ok (c := .seek 0 0 2) moved).symm.trans sought)
    exact live

theorem mkdir_overwrites : check (fun w => magic (w.state.disk.read 0) != SFS_MAGIC)
    (runAll Call.step [.mkdir .zero slash] (World.formatted .initial)) = true := by
  decide +kernel

theorem formatted_not_intact : ¬ ∀ (s : State) (calls : List Call) (w : World),
    runAll Call.step calls (World.formatted s) = .ok w → Intact w ∧ Meets Call.step Call.Apart calls (World.formatted s) := by
  intro claim
  obtain ⟨w, run, lost⟩ := of_check mkdir_overwrites
  simp [(claim _ _ _ run).1.magic] at lost

end StorageStack.Sfs
