import StorageStack.Sfs.Isolation

/-!
# No block owned twice

Runs of fine calls keep the blocks that can be reached from the superblock apart and marked. `sfs_remove`
frees a file but leaves its descriptors in the table as they were, and a second call through one of them
frees whatever the blocks became.
-/

namespace StorageStack.Sfs
open Lib CString

/-- The blocks that a walk from the superblock finds have one name each, start at 2 and are marked. -/
structure Unshared (d : Image) : Prop where
  distinct : ∀ l l', Reached d l → Reached d l' → l.read d ≠ 0 → l.read d = l'.read d → l = l'
  range : ∀ l, Reached d l → l.read d ≠ 0 → 2 ≤ l.read d
  marked : ∀ l, Reached d l → l.read d ≠ 0 → (d.read 1).bit (l.read d) = true

theorem WellFormed.unshared {d : Image} (h : WellFormed d) : Unshared d :=
  ⟨h.distinct, fun l reach named => (h.range l reach named).1, h.marked⟩

/-- After any run of fine calls no block is owned twice. -/
theorem fine_unshared (s : State) (calls : List Call)
    (fine : Meets Call.step (fun c w => c.Fine w ∧ c ≠ .mkfs) calls (World.start s)) :
    ∃ w, runAll Call.step calls (World.start s) = .ok w ∧ Unshared w.state.disk := by
  obtain ⟨w, own, run, serves⟩ := run_serves s (fun c w own _ fine => fine) calls fine
  exact ⟨w, run, serves.healthy.wellFormed.unshared⟩

/-- The first file goes. -/
def oneRemoved : List Call := twoFiles ++ [.remove 0]

theorem oneRemoved_fine : Meets Call.step (fun c w => c.Fine w ∧ c ≠ .mkfs) oneRemoved (World.start .initial) := by
  refine twoFiles_fine.append fun w run => ?_
  obtain ⟨w', dirBid, run', -, -, live, small, -⟩ := twoFiles_world
  obtain rfl := Except.ok.inj (run.symm.trans run')
  exact ⟨⟨⟨0, ⟨fdIndex_val 0, live⟩, small⟩, by simp⟩, fun _ _ => trivial⟩

theorem oneRemoved_unshared : ∃ w, runAll Call.step oneRemoved (World.start .initial) = .ok w ∧ Unshared w.state.disk :=
  fine_unshared .initial oneRemoved oneRemoved_fine

/-! ### Descriptors of removed files -/

def World.valid (w : World) (fd : Int) : Bool := check (fun slot => (w.state.fdtable slot).valid == 1) (fdIndex fd)

/-- The calls on directories and files, each through a descriptor that the table has in use. -/
def Call.throughValid (w : World) : Call → Bool
  | mkdir .. => true
  | rmdir _ => true
  | openFile _ dirname _ => check (· != 0) (sfsFindDir w.state dirname)
  | close fd => w.valid fd
  | seek fd _ _ => w.valid fd
  | write none fd _ _ => w.valid fd
  | remove fd => w.valid fd
  | _ => false

theorem dirB_nonzero : ∀ c ∈ ([98] : List UInt8), c ≠ 0 := by simp

def dirB : CString := ⟨[98], dirB_nonzero⟩

/-- The second directory gets the block of the inode that was removed, and is freed with it. -/
def removeTwice : List Call :=
  [.mkdir .zero slash, .openFile .zero slash fileF, .remove 0, .mkdir .zero dirB, .remove 0]

theorem removeTwice_valid : Meets Call.step (fun c w => c.throughValid w = true) removeTwice (World.start .initial) := by
  decide +kernel

theorem removeTwice_frees : check (fun w => firstDir (w.state.disk.read 0) == 2 && nextDir (w.state.disk.read 2) == 3 &&
    !(w.state.disk.read 1).bit 3) (runAll Call.step removeTwice (World.start .initial)) = true := by
  decide +kernel

theorem valid_descriptors_share : ¬ ∀ (s : State) (calls : List Call),
    Meets Call.step (fun c w => c.throughValid w = true) calls (World.start s) →
      ∀ w, runAll Call.step calls (World.start s) = .ok w → Unshared w.state.disk := by
  intro claim
  obtain ⟨w, run, facts⟩ := of_check removeTwice_frees
  have unshared := claim .initial removeTwice removeTwice_valid w run
  simp only [Bool.and_eq_true, beq_iff_eq, Bool.not_eq_true'] at facts
  obtain ⟨⟨first, next⟩, clear⟩ := facts
  have dir : Loc.read w.state.disk .firstDir = 2 := first
  have top : Reached w.state.disk .firstDir := .root
  have reach : Reached w.state.disk (.nextDir 2) := .step top (by rw [dir]; decide) dir.symm rfl
  have read : Loc.read w.state.disk (.nextDir 2) = 3 := next
  have marked := unshared.marked _ reach (by rw [read]; decide)
  rw [read, clear] at marked
  cases marked

end StorageStack.Sfs
