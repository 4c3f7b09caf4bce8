import StorageStack.Sfs.Calls
import StorageStack.Sfs.Isolation

/-!
# Reloading

`sfs_reloadfs` replaces the superblock and the freemap in memory by what the image holds. In a healthy
state they are the same, so nothing that happens later can tell.
-/

namespace StorageStack.Sfs
open Lib CString

/-- The calls that only use descriptors of files that are there, within the first frame of a file. The array
of ids has room and no allocation finds the freemap full. -/
def Call.Quiet (w : World) : Call → Prop
  | mkdir _ dirname => dirname.bytes.length ≤ 507 ∧
      (sfsFindDir w.state dirname = .ok 0 → 0 < (w.state.disk.read 1).clearCount)
  | rmdir _ => True
  | lsdir => True
  | ls => True
  | openFile _ dirname name => OpenFine w.state dirname name
  | close fd => Indexed fd
  | seek fd _ loc => Indexed fd ∧ (loc = 0 ∨ loc = 1 ∨ loc = 2)
  | write (some cap) fd buf length => ∃ slot, w.Live fd slot ∧ 0 ≤ length ∧ length ≤ buf.length ∧
      (w.state.fdtable slot).cur + length < 127 * 512 ∧ numBlocks (w.state.fdtable slot).cur length.toNat ≤ cap ∧
      holes (w.state.disk.read (firstFrame (w.state.disk.read (w.state.fdtable slot).inodeBid)))
        ((w.state.fdtable slot).cur / 512) (numBlocks (w.state.fdtable slot).cur length.toNat) ≤
        (w.state.disk.read 1).clearCount
  | _ => False

theorem Call.Quiet.fine {c : Call} {w : World} {own : Owners} (serves : Serves own w) (quiet : c.Quiet w) :
    c.Fine w ∧ c ≠ .mkfs := by
  cases c with
  | mkdir temp dirname => exact ⟨⟨serves.healthy.coherent.loaded, quiet⟩, by simp⟩
  | rmdir dirname => exact ⟨trivial, by simp⟩
  | lsdir => exact ⟨trivial, by simp⟩
  | ls => exact ⟨trivial, by simp⟩
  | openFile inode dirname name => exact ⟨quiet, by simp⟩
  | close fd => exact ⟨quiet, by simp⟩
  | seek fd relative loc => exact ⟨quiet, by simp⟩
  | write cap fd buf length =>
    cases cap with
    | none => exact quiet.elim
    | some cap =>
      obtain ⟨slot, live, nonneg, source, position, ids, free⟩ := quiet
      have role := (serves.live slot live.2).role
      obtain ⟨fs, chain, -⟩ := serves.healthy.sound.frameChain role
      obtain ⟨n, rfl⟩ := Int.eq_ofNat_of_zero_le nonneg
      exact ⟨⟨slot, live, source, fs, writeRoom_firstFrame chain (serves.healthy.usable role).framed (by omega) ids free⟩,
        by simp⟩
  | _ => exact quiet.elim

/-- After any run of quiet calls memory and image agree, and later calls return the same with and without
a reload. -/
theorem reload_unobservable (s : State) (calls : List Call)
    (quiet : Meets Call.step (fun c w => c.Quiet w) calls (World.start s)) :
    ∃ w, runAll Call.step calls (World.start s) = .ok w ∧ Coherent w.state ∧ sfsReloadfs w.state = w.state ∧
      ∀ later, runAll Call.step later ⟨sfsReloadfs w.state, w.live⟩ = runAll Call.step later w := by
  obtain ⟨w, own, run, serves⟩ := run_serves s (fun c w own serves quiet => quiet.fine serves) calls quiet
  have coherent := serves.healthy.coherent
  have same : sfsReloadfs w.state = w.state := by rw [sfsReloadfs, ← coherent.sb, ← coherent.freemap]
  exact ⟨w, run, coherent, same, fun later => by rw [same]⟩

theorem oneWritten_quiet : Meets Call.step (fun c w => c.Quiet w) oneWritten (World.start .initial) := by
  have opened : Meets Call.step (fun c w => c.Quiet w) oneOpened (World.start .initial) := by
    refine ⟨⟨by decide, fun _ => free_start .initial⟩, fun w made => ⟨?_, fun _ _ => trivial⟩⟩
    obtain ⟨r, run⟩ := Call.of_step made
    exact @openFine_first r w.state run slash (by decide)
  refine opened.append fun w run => ?_
  obtain ⟨w', run', live, cursor, clear⟩ := oneOpened_world
  obtain rfl := Except.ok.inj (run.symm.trans run')
  have one : numBlocks 0 1 = 1 := rfl
  refine ⟨⟨0, ⟨fdIndex_val 0, live⟩, by decide, by decide, by rw [cursor]; decide, ?_, ?_⟩,
    fun _ _ => ⟨⟨⟨Int.le_refl 0, by decide⟩, .inl rfl⟩, fun _ _ => trivial⟩⟩
  · rw [cursor]
    exact one.le
  · rw [cursor]
    exact (holes_le _ _ _).trans (Bytes.clearCount_pos (by decide) clear)

/-- A directory and a file are there. -/
theorem reload_after_write : ∃ w, runAll Call.step oneWritten (World.start .initial) = .ok w ∧ Coherent w.state ∧
    sfsReloadfs w.state = w.state ∧
    ∀ later, runAll Call.step later ⟨sfsReloadfs w.state, w.live⟩ = runAll Call.step later w :=
  reload_unobservable .initial oneWritten oneWritten_quiet

end StorageStack.Sfs
