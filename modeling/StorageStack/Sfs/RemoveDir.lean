import StorageStack.Sfs.Leaks
import StorageStack.Sfs.Superblock

/-!
# Removing directories

`sfs_rmdir` looks for the name and never at the slots: it removes every directory it finds. It does what its
contract says for the names of no directory and of empty ones.
-/

namespace StorageStack.Sfs
open Lib CString

def EmptyDir (dir : Block) : Prop := ∀ k < SFS_DB_NINODES, inodes dir k = 0

/-- Removing by name works for empty directories alone, and a directory with a file in it is refused. -/
def RmdirKeepsFiles (s : State) (dirname : CString) : Prop :=
  ∃ dirBid r s', sfsFindDir s dirname = .ok dirBid ∧ sfsRmdir s dirname = .ok (r, s') ∧ (r = 0 ∨ r = -1) ∧
    (r = 0 ↔ dirBid ≠ 0 ∧ EmptyDir (s.disk.read dirBid)) ∧
    (dirBid ≠ 0 ∧ ¬ EmptyDir (s.disk.read dirBid) → r = -1 ∧ s'.freemap = s.freemap ∧ s'.disk = s.disk)

def MissingOrEmpty (s : State) (dirname : CString) : Prop :=
  ∀ dirBid, sfsFindDir s dirname = .ok dirBid → dirBid ≠ 0 → EmptyDir (s.disk.read dirBid)

variable {own : Owners} {s : State} {w : World} {dirname : CString}

theorem findDir_unlinked (none : firstDir s.sb = 0) : sfsFindDir s dirname = .ok 0 := by
  rw [sfsFindDir, none, show steps = 4294967295 + 1 from rfl, findDirFrom, if_pos rfl]

/-- In every state, a directory that is found goes when the call returns. -/
theorem sfsRmdir_returns {dirBid : Nat} {r : Int} {s' : State} (found : sfsFindDir s dirname = .ok dirBid)
    (present : dirBid ≠ 0) (run : sfsRmdir s dirname = .ok (r, s')) : r = 0 := by
  have linked : firstDir s.sb ≠ 0 := by
    intro none
    rw [findDir_unlinked none] at found
    exact present (Except.ok.inj found).symm
  rw [sfsRmdir, found, ok_bind, if_neg (not_or.mpr ⟨present, linked⟩)] at run
  obtain ⟨s₁, -, run⟩ := bind_ok run
  obtain ⟨d, -, run⟩ := bind_ok run
  exact (Prod.mk.inj (Except.ok.inj run)).1.symm

theorem RmdirKeepsFiles.missingOrEmpty (keeps : RmdirKeepsFiles s dirname) : MissingOrEmpty s dirname := by
  obtain ⟨dirBid, r, s', found, run, -, success, -⟩ := keeps
  intro dirBid' found' present
  obtain rfl := Except.ok.inj (found.symm.trans found')
  exact (success.mp (sfsRmdir_returns found present run)).2

theorem rmdir_missing (found : sfsFindDir s dirname = .ok 0) : RmdirKeepsFiles s dirname := by
  refine ⟨0, -1, s, found, ?_, .inr rfl, ⟨nofun, fun both => absurd rfl both.1⟩, fun both => absurd rfl both.1⟩
  rw [sfsRmdir, found, ok_bind, if_pos (.inl rfl)]

theorem Healthy.rmdir_empty (h : Healthy own s) (empty : MissingOrEmpty s dirname) : RmdirKeepsFiles s dirname := by
  obtain ⟨ids, walk, -⟩ := h.walkable
  rcases walk.find_cases dirname with ⟨found, -⟩ | ⟨front, id, back, rfl, found, -⟩
  · exact rmdir_missing found
  · have present : id ≠ 0 := walk.ne_zero (by simp)
    have all := empty id found present
    exact ⟨id, 0, _, found, sfsRmdir_found walk found, .inl rfl, ⟨fun _ => ⟨present, all⟩, fun _ => rfl⟩,
      fun both => absurd all both.2⟩

/-- In every file system that is reached, removing keeps files exactly when the directory is missing or empty. -/
theorem rmdir_keeps_files_iff (s : State) (calls : List Call)
    (fine : Meets Call.step (fun c w => c.Fine w) calls (World.formatted s)) :
    ∃ w, runAll Call.step calls (World.formatted s) = .ok w ∧
      ∀ dirname, RmdirKeepsFiles w.state dirname ↔ MissingOrEmpty w.state dirname := by
  obtain ⟨w, run, inv⟩ := fine_reaches s calls fine
  refine ⟨w, run, fun dirname => ⟨RmdirKeepsFiles.missingOrEmpty, fun empty => ?_⟩⟩
  rcases inv with fresh | ⟨own, serves⟩
  · exact rmdir_missing (fresh.findDir dirname)
  · exact serves.healthy.rmdir_empty empty

/-- A directory, then the same name again. -/
theorem load_and_mkdir_removes : ∃ w, runAll Call.step [.printInfo, .mkdir .zero slash] (World.formatted .initial) = .ok w ∧
    ∀ dirname, RmdirKeepsFiles w.state dirname ↔ MissingOrEmpty w.state dirname :=
  rmdir_keeps_files_iff .initial [.printInfo, .mkdir .zero slash] ⟨trivial, fun w loaded => by
    obtain rfl : World.start .initial = w := Except.ok.inj loaded
    exact ⟨mkdirFine_first, fun _ _ => trivial⟩⟩

/-- A directory with one file in it. -/
def oneListed : List Call := [.printInfo, .mkdir .zero slash, .openFile .zero slash slash]

theorem oneListed_world : ∃ w dirBid, runAll Call.step oneListed (World.formatted .initial) = .ok w ∧
    sfsFindDir w.state slash = .ok dirBid ∧ dirBid ≠ 0 ∧ firstDir (w.state.disk.read 0) = dirBid ∧
    inodes (w.state.disk.read dirBid) 0 = (w.state.fdtable 0).inodeBid ∧ (w.state.fdtable 0).inodeBid ≠ 0 ∧
    (w.state.fdtable 0).cur = 0 ∧ size (w.state.disk.read (w.state.fdtable 0).inodeBid) = 0 ∧
    content (w.state.disk.read (firstFrame (w.state.disk.read (w.state.fdtable 0).inodeBid))) 0 ≠ 0 ∧
    nfreemapBlocks w.state.sb = 1 ∧ (w.state.disk.read 1).bit 4095 = false ∧
    ∀ k : Fin 124, (w.state.disk.read 0).word (4 + k.val) = 0 := by
  have facts : check (fun w => check (fun dirBid => decide (dirBid ≠ 0 ∧ firstDir (w.state.disk.read 0) = dirBid ∧
      inodes (w.state.disk.read dirBid) 0 = (w.state.fdtable 0).inodeBid ∧ (w.state.fdtable 0).inodeBid ≠ 0 ∧
      (w.state.fdtable 0).cur = 0 ∧ size (w.state.disk.read (w.state.fdtable 0).inodeBid) = 0 ∧
      content (w.state.disk.read (firstFrame (w.state.disk.read (w.state.fdtable 0).inodeBid))) 0 ≠ 0 ∧
      nfreemapBlocks w.state.sb = 1 ∧ (w.state.disk.read 1).bit 4095 = false ∧
      ∀ k : Fin 124, (w.state.disk.read 0).word (4 + k.val) = 0)) (sfsFindDir w.state slash))
      (runAll Call.step oneListed (World.formatted .initial)) = true := by
    decide +kernel
  obtain ⟨w, run, rest⟩ := of_check facts
  obtain ⟨dirBid, found, holds⟩ := of_check rest
  exact ⟨w, dirBid, run, found, of_decide_eq_true holds⟩

theorem oneListed_fine : Meets Call.step (fun c w => c.Fine w) oneListed (World.formatted .initial) := by
  refine ⟨trivial, fun w loaded => ?_⟩
  obtain rfl : World.start .initial = w := Except.ok.inj loaded
  refine ⟨mkdirFine_first, fun w made => ?_⟩
  obtain ⟨r, run⟩ := Call.of_step made
  exact ⟨@openFine_first r w.state run slash (by decide), fun _ _ => trivial⟩

theorem rmdir_removes_files : ¬ ∀ (s : State) (calls : List Call),
    Meets Call.step (fun c w => c.Fine w) calls (World.formatted s) →
    ∀ w, runAll Call.step calls (World.formatted s) = .ok w → ∀ dirname, RmdirKeepsFiles w.state dirname := by
  intro claim
  obtain ⟨w, dirBid, run, found, present, -, slot, named, -⟩ := oneListed_world
  have empty := (claim .initial oneListed oneListed_fine w run slash).missingOrEmpty dirBid found present
  exact named (slot.symm.trans (empty 0 (by decide)))

end StorageStack.Sfs
