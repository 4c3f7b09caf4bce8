import Mathlib.Data.Finset.Card
import Mathlib.Data.Fintype.Basic
import StorageStack.Sfs.Calls

/-!
# The life cycle of descriptors

A descriptor is live from its `sfs_open` to its `sfs_close` or `sfs_remove`. As long as no file is removed the
valid entries of the table are the live ones. `sfs_remove` resets a copy, so that its entry stays valid and
names a block that is free.
-/

namespace StorageStack.Sfs
open Lib CString

/-- A state, and the descriptors that were opened and neither closed nor removed. -/
structure Session where
  state : State
  live : Finset (Fin 32)

/-- The live descriptors after a call that returned `r`. -/
def Session.track (w : Session) (r : Int) : Call → Finset (Fin 32)
  | .openFile .. =>
    match fdIndex r with
    | .ok fd => insert fd w.live
    | .error _ => w.live
  | .close fd =>
    match fdIndex fd with
    | .ok slot => w.live.erase slot
    | .error _ => w.live
  | .remove fd =>
    match fdIndex fd with
    | .ok slot => w.live.erase slot
    | .error _ => w.live
  | _ => w.live

def Call.sessionStep (c : Call) (w : Session) : Outcome Session := do
  let (r, s) ← c.run w.state
  .ok ⟨s, w.track r c⟩

/-- The calls on descriptors, and the directories they need. A descriptor that is closed or removed is live. -/
def Call.OnLive (w : Session) : Call → Prop
  | .mkdir _ dirname => MkdirFine w.state dirname
  | .openFile _ dirname name => OpenFine w.state dirname name
  | .close fd => ∃ slot ∈ w.live, fdIndex fd = .ok slot
  | .remove fd => ∃ slot ∈ w.live, fdIndex fd = .ok slot
  | _ => False

/-- No valid entry names an inode block that is free. -/
def NamesUsed (s : State) : Prop := ∀ i, (s.fdtable i).valid ≠ 0 → (s.disk.read 1).bit (s.fdtable i).inodeBid = true

structure Cycled (w : Session) (c : Call) (r : Int) (s' : State) : Prop where
  opened : ∀ inode dirname name, c = .openFile inode dirname name →
    (r = -1 ∧ w.live.card = 32) ∨ ∃ fd, fdIndex r = .ok fd ∧ fd ∉ w.live
  removed : ∀ fd slot, c = .remove fd → fdIndex fd = .ok slot → (s'.fdtable slot).valid = 0

/-- Every call of the run returns, and descriptors are fresh, run out only when all are live, end with their
file and never name a free block. -/
def LifeCycle : List Call → Session → Prop
  | [], w => NamesUsed w.state
  | c :: calls, w => NamesUsed w.state ∧ ∃ r s', c.run w.state = .ok (r, s') ∧ Cycled w c r s' ∧ LifeCycle calls ⟨s', w.track r c⟩

def Call.IsRemove : Call → Prop
  | .remove _ => True
  | _ => False

variable {own own' : Owners} {s s' : State} {w : Session} {c : Call} {calls : List Call} {r : Int}

/-- The session as a world: the live descriptors are those that stand for a file. -/
def Session.world (w : Session) : World := ⟨w.state, fun i => decide (i ∈ w.live)⟩

/-- The valid entries are the live ones, and each has a file. -/
structure InStep (own : Owners) (w : Session) : Prop where
  serves : Serves own w.world
  valid : ∀ i, i ∈ w.live ↔ (w.state.fdtable i).valid ≠ 0

theorem InStep.namesUsed (inStep : InStep own w) : NamesUsed w.state := by
  intro i valid
  have live := inStep.serves.live i (decide_eq_true ((inStep.valid i).mpr valid))
  exact inStep.serves.healthy.sound.bit (owned_of_role live.role)

/-! ### One call -/

theorem findFd_eq_none (full : findFd s = none) (i : Fin 32) : (s.fdtable i).valid ≠ 0 := by
  have used := List.find?_eq_none.mp full i (List.mem_finRange i)
  simpa using used

theorem findFd_eq_some {fd : Fin 32} (found : findFd s = some fd) : (s.fdtable fd).valid = 0 := by
  have unused := List.find?_some found
  simpa using unused

theorem InStep.mkdir (inStep : InStep own w) (temp : Block) {dirname : CString} (fine : MkdirFine w.state dirname) :
    ∃ r s' own', (Call.mkdir temp dirname).run w.state = .ok (r, s') ∧ Cycled w (.mkdir temp dirname) r s' ∧
      InStep own' ⟨s', w.track r (.mkdir temp dirname)⟩ := by
  obtain ⟨r, own', s', run, healthy, kept, table, -⟩ := mkdir_healthy temp inStep.serves.healthy fine.2.1 fine.2.2
  refine ⟨r, s', own', run, ⟨nofun, nofun⟩, ?_, ?_⟩
  · exact inStep.serves.next healthy kept (sameFile_of_eq table)
  · intro i
    show i ∈ w.live ↔ (s'.fdtable i).valid ≠ 0
    rw [table]
    exact inStep.valid i

theorem InStep.close (inStep : InStep own w) {fd : Int} {slot : Fin 32} (index : fdIndex fd = .ok slot) :
    ∃ r s' own', (Call.close fd).run w.state = .ok (r, s') ∧ Cycled w (.close fd) r s' ∧
      InStep own' ⟨s', w.track r (.close fd)⟩ := by
  have left : w.track 0 (.close fd) = w.live.erase slot := by
    rw [Session.track, index]
  refine ⟨0, w.state.setFd slot { w.state.fdtable slot with valid := 0 }, own, ?_,
    ⟨nofun, nofun⟩, ⟨inStep.serves.healthy.setFd _ _, ?_⟩, ?_⟩
  · rw [Call.run, sfsClose, index, ok_bind]
  · intro i live
    rw [left] at live
    obtain ⟨apart, before⟩ := Finset.mem_erase.mp (of_decide_eq_true live)
    show LiveFd own ((w.state.setFd slot _).fdtable i)
    rw [setFd_of_ne _ _ apart]
    exact inStep.serves.live i (decide_eq_true before)
  · intro i
    rw [left, Finset.mem_erase]
    by_cases here : i = slot
    · rw [here, setFd_self]
      exact iff_of_false (fun both => both.1 rfl) fun valid => valid rfl
    · rw [setFd_of_ne _ _ here, inStep.valid i]
      exact and_iff_right here

theorem InStep.openFile (inStep : InStep own w) (inode : Block) {dirname name : CString} (fine : OpenFine w.state dirname name) :
    ∃ r s' own', (Call.openFile inode dirname name).run w.state = .ok (r, s') ∧ Cycled w (.openFile inode dirname name) r s' ∧
      InStep own' ⟨s', w.track r (.openFile inode dirname name)⟩ := by
  obtain ⟨dirBid, found, present, fits, room⟩ := fine
  have healthy := inStep.serves.healthy
  obtain ⟨r, own', s', run, healthy', kept, -, result⟩ := open_healthy inode healthy found present fits room
  have live : ∀ i ∈ w.live, LiveFd own' (w.state.fdtable i) := by
    intro i member
    exact (inStep.serves.live i (decide_eq_true member)).kept kept
  refine ⟨r, s', own', run, ?_⟩
  rcases result with ⟨full, rfl, rfl⟩ | ⟨fd, free, rfl, others, opened, valid⟩
  · have all : w.live = Finset.univ := by
      ext i
      rw [inStep.valid i]
      exact iff_of_true (findFd_eq_none full i) (Finset.mem_univ i)
    refine ⟨⟨fun _ _ _ _ => .inl ⟨rfl, ?_⟩, nofun⟩, ⟨healthy', ?_⟩, inStep.valid⟩
    · rw [all, Finset.card_univ, Fintype.card_fin]
    · intro i member
      exact live i (of_decide_eq_true member)
  · have fresh : fd ∉ w.live := by
      rw [inStep.valid fd]
      exact not_not.mpr (findFd_eq_some free)
    have tracked : w.track (fd.val : Nat) (.openFile inode dirname name) = insert fd w.live := by
      rw [Session.track, fdIndex_val]
    refine ⟨⟨fun _ _ _ _ => .inr ⟨fd, fdIndex_val fd, fresh⟩, nofun⟩, ⟨healthy', ?_⟩, ?_⟩
    · intro i member
      rw [tracked] at member
      rcases Finset.mem_insert.mp (of_decide_eq_true member) with rfl | before
      · exact opened
      · have apart : i ≠ fd := by
          rintro rfl
          exact fresh before
        show LiveFd own' (s'.fdtable i)
        rw [others i apart]
        exact live i before
    · intro i
      rw [tracked, Finset.mem_insert]
      show _ ↔ (s'.fdtable i).valid ≠ 0
      by_cases new : i = fd
      · rw [new, valid]
        exact iff_of_true (.inl rfl) (by decide)
      · rw [others i new, inStep.valid i]
        exact or_iff_right new

theorem InStep.call (inStep : InStep own w) (allowed : c.OnLive w) (other : ¬ c.IsRemove) :
    ∃ r s' own', c.run w.state = .ok (r, s') ∧ Cycled w c r s' ∧ InStep own' ⟨s', w.track r c⟩ := by
  cases c with
  | mkdir temp dirname => exact inStep.mkdir temp allowed
  | openFile inode dirname name => exact inStep.openFile inode allowed
  | close fd =>
    obtain ⟨slot, -, index⟩ := allowed
    exact inStep.close index
  | remove fd => exact absurd trivial other
  | _ => exact allowed.elim

/-! ### `sfs_remove` does not touch the table -/

theorem sfsFreeBlock_fdtable {bid : Nat} (run : sfsFreeBlock s bid = .ok s') : s'.fdtable = s.fdtable := by
  unfold sfsFreeBlock at run
  dsimp only at run
  split at run
  · rw [← Except.ok.inj run]
    rfl
  · cases run

theorem freeContents_fdtable {frame : Block} {remaining i : Nat} (run : freeContents frame remaining i s = .ok s') :
    s'.fdtable = s.fdtable := by
  induction remaining generalizing i s with
  | zero => rw [← Except.ok.inj run]
  | succ remaining ih =>
    rw [freeContents] at run
    split at run
    · obtain ⟨s₁, freed, rest⟩ := bind_ok run
      exact (ih rest).trans (sfsFreeBlock_fdtable freed)
    · exact ih run

theorem freeFrames_fdtable {fuel frameBid : Nat} (run : freeFrames fuel frameBid s = .ok s') : s'.fdtable = s.fdtable := by
  induction fuel generalizing frameBid s with
  | zero => cases run
  | succ fuel ih =>
    rw [freeFrames] at run
    split at run
    · rw [← Except.ok.inj run]
    · obtain ⟨s₁, contents, run⟩ := bind_ok run
      obtain ⟨s₂, frame, rest⟩ := bind_ok run
      rw [ih rest, sfsFreeBlock_fdtable frame, freeContents_fdtable contents]

theorem sfsRemove_fdtable {fd : Int} (run : sfsRemove s fd = .ok (r, s')) : s'.fdtable = s.fdtable := by
  unfold sfsRemove at run
  obtain ⟨slot, -, run⟩ := bind_ok run
  obtain ⟨dir, -, run⟩ := bind_ok run
  obtain ⟨s₁, frames, run⟩ := bind_ok run
  obtain ⟨s₂, inode, run⟩ := bind_ok run
  rw [← (Prod.mk.inj (Except.ok.inj run)).2, sfsFreeBlock_fdtable inode, freeFrames_fdtable frames]

/-! ### Runs -/

theorem LifeCycle.no_remove (inStep : InStep own w) (allowed : Meets Call.sessionStep (fun c w => c.OnLive w) calls w)
    (cycle : LifeCycle calls w) :
    ∀ c ∈ calls, ¬ c.IsRemove := by
  induction calls generalizing own w with
  | nil =>
    intro c member
    cases member
  | cons c calls ih =>
    obtain ⟨-, r, s', run, cycled, rest⟩ := cycle
    have first : ¬ c.IsRemove := by
      intro removes
      cases c with
      | remove fd =>
        obtain ⟨slot, live, index⟩ := allowed.1
        have still := (inStep.valid slot).mp live
        have invalid := cycled.removed fd slot rfl index
        rw [sfsRemove_fdtable run] at invalid
        exact still invalid
      | _ => exact removes
    obtain ⟨r', s'', own', run', -, inStep'⟩ := inStep.call allowed.1 first
    obtain ⟨rfl, rfl⟩ := Prod.mk.inj (Except.ok.inj (run.symm.trans run'))
    have later := allowed.2 ⟨s', w.track r c⟩ (by rw [Call.sessionStep, run]; rfl)
    intro c' member
    rcases List.mem_cons.mp member with rfl | member
    · exact first
    · exact ih inStep' later rest c' member

theorem lifeCycle_of_no_remove (inStep : InStep own w) (allowed : Meets Call.sessionStep (fun c w => c.OnLive w) calls w)
    (others : ∀ c ∈ calls, ¬ c.IsRemove) : LifeCycle calls w := by
  induction calls generalizing own w with
  | nil => exact inStep.namesUsed
  | cons c calls ih =>
    obtain ⟨r, s', own', run, cycled, inStep'⟩ := inStep.call allowed.1 (others c (List.mem_cons_self ..))
    have later := allowed.2 ⟨s', w.track r c⟩ (by rw [Call.sessionStep, run]; rfl)
    exact ⟨inStep.namesUsed, r, s', run, cycled, ih inStep' later fun c' member => others c' (List.mem_cons_of_mem _ member)⟩

def Session.start (s : State) : Session := ⟨Sfs.start s, ∅⟩

theorem inStep_start (s : State) : InStep bare (Session.start s) := by
  refine ⟨⟨(serves_start s).healthy, ?_⟩, ?_⟩
  · intro i live
    have member : i ∈ (∅ : Finset (Fin 32)) := of_decide_eq_true live
    exact absurd member (Finset.notMem_empty i)
  · intro i
    exact iff_of_false (Finset.notMem_empty i) fun valid => valid rfl

/-- A run of calls on live descriptors keeps to their life cycle if and only if it removes no file. -/
theorem lifeCycle_iff (s : State) (calls : List Call)
    (allowed : Meets Call.sessionStep (fun c w => c.OnLive w) calls (Session.start s)) :
    LifeCycle calls (Session.start s) ↔ ∀ c ∈ calls, ¬ c.IsRemove :=
  ⟨LifeCycle.no_remove (inStep_start s) allowed, lifeCycle_of_no_remove (inStep_start s) allowed⟩

/-! ### One directory -/

theorem open_after_mkdir {w : Session} (made : (Call.mkdir .zero slash).sessionStep (Session.start .initial) = .ok w)
    {name : CString}
    (fits : name.bytes.length ≤ 503) : OpenFine w.state slash name := by
  obtain ⟨⟨r, s'⟩, run, same⟩ := bind_ok made
  obtain rfl := Except.ok.inj same
  exact openFine_first run fits

theorem mkdir_open_lifeCycle :
    LifeCycle [.mkdir .zero slash, .openFile .zero slash slash] (Session.start .initial) :=
  (lifeCycle_iff .initial [.mkdir .zero slash, .openFile .zero slash slash]
    ⟨mkdirFine_first, fun w made => ⟨open_after_mkdir made (by decide), fun _ _ => trivial⟩⟩).mpr (by
    intro c member
    rcases List.mem_cons.mp member with rfl | member
    · exact id
    · obtain rfl := List.mem_singleton.mp member
      exact id)

theorem removed_entry_valid : ¬ ∀ (s : State) (calls : List Call),
    Meets Call.sessionStep (fun c w => c.OnLive w) calls (Session.start s) → LifeCycle calls (Session.start s) := by
  intro claim
  have opened : check (fun w => decide ((0 : Fin 32) ∈ w.live))
      (runAll Call.sessionStep [.mkdir .zero slash, .openFile .zero slash slash] (Session.start .initial)) = true := by
    decide +kernel
  have allowed : Meets Call.sessionStep (fun c w => c.OnLive w) [.mkdir .zero slash, .openFile .zero slash slash, .remove 0]
      (Session.start .initial) := by
    refine ⟨mkdirFine_first, fun w made =>
      ⟨open_after_mkdir made (by decide), fun w' reached => ⟨⟨0, ?_, rfl⟩, fun _ _ => trivial⟩⟩⟩
    rw [runAll, made, ok_bind, runAll, reached, ok_bind, runAll, check] at opened
    exact of_decide_eq_true opened
  have cycle := claim .initial _ allowed
  exact LifeCycle.no_remove (inStep_start .initial) allowed cycle (.remove 0) (by simp) trivial

end StorageStack.Sfs
