import StorageStack.Sfs.Calls
import StorageStack.Sfs.Isolation

/-!
# No block is lost

A block that is marked in the freemap and that no walk from the superblock finds can never be freed again.
Runs lose no block as long as every call frees what it unlinks. `sfs_rmdir` does not: it frees the
directory block and forgets about the files in it.
-/

namespace StorageStack.Sfs
open Lib CString

/-- Every block in use from 2 on is named by a location that a walk from the superblock finds: it is a directory,
an inode in a slot of one, a frame of a file or a content block of a frame. -/
def NoLeaks (d : Image) : Prop := ∀ b, 2 ≤ b → (d.read 1).bit b = true → ∃ l, Reached d l ∧ l.read d = b

variable {own : Owners} {d : Image}

theorem Tight.noLeaks (tight : Tight own d) (sound : Sound own d) : NoLeaks d := by
  intro b low set
  have inside : b < 4096 := by
    by_contra outside
    rw [Bytes.bit_outside _ (by omega)] at set
    cases set
  have top : ∀ l, layout.Live own l → l.host = 0 → l = .firstDir := fun l live here =>
    hostKind_super (live_cases live here sound.role_zero)
  obtain ⟨l, reach, -, named⟩ := ((tight b inside low set).reach top).resolve_left (by omega)
  exact ⟨l, reach, named⟩

/-! ### Runs -/

theorem tight_start (s : State) : Tight bare (World.start s).state.disk := by
  intro b _ low set
  have used : ((Sfs.start s).disk.read 1).bit b = true := set
  rw [bit_start] at used
  simp only [decide_eq_true_eq] at used
  omega

/-- A run of fine calls that free what they unlink returns and loses no block. -/
theorem thrifty_noLeaks (s : State) (calls : List Call)
    (thrifty : Meets Call.step (fun c w => c.Fine w ∧ c ≠ .mkfs ∧ c.Thrifty w) calls (World.start s)) :
    ∃ w, runAll Call.step calls (World.start s) = .ok w ∧ NoLeaks w.state.disk := by
  obtain ⟨w, run, own, serves, tight⟩ := runAll_keeps (fun w => ∃ own, Serves own w ∧ Tight own w.state.disk)
    (fun c w ⟨own, serves, tight⟩ ⟨fine, format, frees⟩ => by
      obtain ⟨w', own', step, serves', saved⟩ := fine_serves serves fine format
      exact ⟨w', step, own', serves', saved frees tight⟩) ⟨bare, serves_start s, tight_start s⟩ thrifty
  exact ⟨w, run, tight.noLeaks serves.healthy.sound⟩

theorem mkdir_first_slot {w : World} {dirBid : Nat} (made : (Call.mkdir .zero slash).step (World.start .initial) = .ok w)
    (found : sfsFindDir w.state slash = .ok dirBid) : inodes (w.state.disk.read dirBid) 0 = 0 := by
  have empty : check (fun w => check (fun dirBid => inodes (w.state.disk.read dirBid) 0 == 0) (sfsFindDir w.state slash))
      ((Call.mkdir .zero slash).step (World.start .initial)) = true := by
    decide +kernel
  rw [made, check, found, check] at empty
  exact eq_of_beq empty

theorem mkdir_open_noLeaks : ∃ w,
    runAll Call.step [.mkdir .zero slash, .openFile .zero slash slash] (World.start .initial) = .ok w ∧
    NoLeaks w.state.disk := by
  refine thrifty_noLeaks .initial [.mkdir .zero slash, .openFile .zero slash slash]
    ⟨⟨mkdirFine_first, nofun, trivial⟩, fun w made => ⟨⟨?_, nofun, ?_⟩, fun _ _ => trivial⟩⟩
  · obtain ⟨r, run⟩ := Call.of_step made
    exact openFine_first run (by decide)
  · intro dirBid found _
    exact ⟨0, by decide, mkdir_first_slot made found⟩

/-! ### Files in a directory that goes -/

/-- Creating, removing and changing files and directories, on existing directories with an empty slot and on
descriptors of files that are there. -/
def Call.Listed (w : World) : Call → Prop
  | mkdir .. => True
  | rmdir _ => True
  | openFile _ dirname _ => ∃ dirBid, sfsFindDir w.state dirname = .ok dirBid ∧ dirBid ≠ 0 ∧
      ∃ k < SFS_DB_NINODES, inodes (w.state.disk.read dirBid) k = 0
  | close fd => ∃ slot, w.Live fd slot
  | seek fd _ _ => ∃ slot, w.Live fd slot
  | write none fd _ _ => ∃ slot, w.Live fd slot
  | remove fd => ∃ slot, w.Live fd slot
  | _ => False

def removeFull : List Call := [.mkdir .zero slash, .openFile .zero slash slash, .rmdir slash]

theorem removeFull_orphans : check (fun w => firstDir (w.state.disk.read 0) == 0 && (w.state.disk.read 1).bit 3)
    (runAll Call.step removeFull (World.start .initial)) = true := by
  decide +kernel

theorem removeFull_listed : Meets Call.step (fun c w => c.Fine w ∧ c.Listed w) removeFull (World.start .initial) := by
  refine ⟨⟨mkdirFine_first, trivial⟩, fun w made => ?_⟩
  obtain ⟨r, run⟩ := Call.of_step made
  obtain ⟨dirBid, found, present, rest⟩ := @openFine_first r w.state run slash (by decide)
  refine ⟨⟨⟨dirBid, found, present, rest⟩, dirBid, found, present, 0, by decide, ?_⟩,
    fun _ _ => ⟨⟨trivial, trivial⟩, fun _ _ => trivial⟩⟩
  exact mkdir_first_slot made found

/-- The inode of the file keeps its bit, and no directory is left. -/
theorem rmdir_leaks : ¬ ∀ (s : State) (calls : List Call),
    Meets Call.step (fun c w => c.Fine w ∧ c.Listed w) calls (World.start s) →
      ∀ w, runAll Call.step calls (World.start s) = .ok w → NoLeaks w.state.disk := by
  intro claim
  obtain ⟨w, run, facts⟩ := of_check removeFull_orphans
  rw [Bool.and_eq_true, beq_iff_eq] at facts
  obtain ⟨l, reach, named⟩ := claim .initial removeFull removeFull_listed w run 3 (by decide) facts.2
  have none : Loc.read w.state.disk .firstDir = 0 := facts.1
  have top : ∀ l, Reached w.state.disk l → l = .firstDir := by
    intro l reach
    induction reach with
    | root => rfl
    | step _ some _ _ ih =>
      rw [ih] at some
      exact absurd none some
  rw [top l reach, none] at named
  cases named

end StorageStack.Sfs
