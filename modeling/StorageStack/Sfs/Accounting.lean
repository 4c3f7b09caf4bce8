import StorageStack.Sfs.Calls
import StorageStack.Sfs.Transfer

/-!
# Size and cursors

The reference of a file that fits into its first frame is its size and the cursors of all descriptors. Any
sequence of seeks and writes through descriptors of the file returns what the reference says and leaves the
size on the disk and the cursors it says.
-/

namespace StorageStack.Sfs
open Lib

/-- A call on the file. The lengths are those the caller passes, the buffer may be longer. -/
inductive FileOp where
  | seek (fd : Fin 32) (relative loc : Int)
  | write (fd : Fin 32) (buf : List UInt8) (length : Nat)

def FileOp.run (cap : Nat) (s : State) : FileOp → Outcome (Int × State)
  | seek fd relative loc => sfsSeek s (fd.val : Nat) relative loc
  | write fd buf length => sfsWriteWith cap s (fd.val : Nat) buf length

/-! ### The reference -/

@[ext] structure Account where
  size : Nat
  cur : Fin 32 → Nat

def Account.move (a : Account) (fd : Fin 32) (p : Nat) : Account :=
  { a with cur := fun i => if i = fd then p else a.cur i }

def Account.base (a : Account) (fd : Fin 32) (loc : Int) : Nat :=
  if loc = 0 then 0 else if loc = 1 then a.cur fd else a.size

/-- What the call returns, and the account after it. -/
def FileOp.reference (a : Account) : FileOp → Int × Account
  | seek fd relative loc => (0, a.move fd (max 0 (a.base fd loc + relative)).toNat)
  | write fd _ length => ((length : Nat), { a with size := max a.size (a.cur fd + length) }.move fd (a.cur fd + length))

/-- The returned value and the account after each call. -/
def accounts : List FileOp → Account → List (Int × Account)
  | [], _ => []
  | op :: ops, a => op.reference a :: accounts ops (op.reference a).2

/-! ### The code -/

def accountOf (inode : Nat) (s : State) : Account := ⟨size (s.disk.read inode), fun i => (s.fdtable i).cur⟩

def FileOp.observe (cap inode : Nat) (op : FileOp) (s : State) : Outcome (List (Int × Account) × State) := do
  let (r, s) ← op.run cap s
  .ok ([(r, accountOf inode s)], s)

/-- A call through a descriptor of the file, to a position in the first frame, with free blocks for its holes
and room for its ids. -/
def FileOp.Fits (cap inode : Nat) (s : State) : FileOp → Prop
  | seek fd relative loc => (s.fdtable fd).inodeBid = inode ∧ (loc = 0 ∨ loc = 1 ∨ loc = 2) ∧ -2147483648 ≤ relative ∧
      (accountOf inode s).base fd loc + relative < 127 * 512
  | write fd buf length => (s.fdtable fd).inodeBid = inode ∧ length ≤ buf.length ∧ (s.fdtable fd).cur + length < 127 * 512 ∧
      numBlocks (s.fdtable fd).cur length ≤ cap ∧
      holes (s.disk.read (firstFrame (s.disk.read inode))) ((s.fdtable fd).cur / 512) (numBlocks (s.fdtable fd).cur length) ≤
        (s.disk.read 1).clearCount

/-- What every call keeps. -/
structure Written (own : Owners) (inode : Nat) (s : State) : Prop where
  sound : Sound own s.disk
  loaded : nfreemapBlocks s.sb ≠ 0
  role : Owners.role own inode = some .inode
  framed : firstFrame (s.disk.read inode) ≠ 0

variable {own : Owners} {s : State} {cap inode : Nat}

theorem seek_accounts (fd : Fin 32) {relative loc : Int} (fits : (FileOp.seek fd relative loc).Fits cap inode s) :
    sfsSeek s (fd.val : Nat) relative loc = .ok (0, s.setFd fd { s.fdtable fd with
      cur := (max 0 ((accountOf inode s).base fd loc + relative)).toNat }) := by
  obtain ⟨file, known, low, high⟩ := fits
  have target : newCur s fd relative loc = .ok ((accountOf inode s).base fd loc + relative) := by
    rcases known with rfl | rfl | rfl
    · show Except.ok relative = Except.ok (((0 : Nat) : Int) + relative)
      rw [Nat.cast_zero, Int.zero_add]
    · have exact' : toInt32 ((s.fdtable fd).cur + relative) = (s.fdtable fd).cur + relative :=
        toInt32_of_range (by omega) (Int.lt_trans high (by decide))
      exact congrArg Except.ok exact'
    · have exact' : toInt32 (size (s.disk.read inode) + relative) = size (s.disk.read inode) + relative :=
        toInt32_of_range (by omega) (Int.lt_trans high (by decide))
      rw [← file] at exact'
      rw [← file]
      exact congrArg Except.ok exact'
  have clamp : ∀ p : Int, (if p < 0 then 0 else p.toNat) = (max 0 p).toNat := by
    intro p
    split <;> omega
  rw [sfsSeek, fdIndex_val, ok_bind, target, ok_bind, clamp]

theorem accountOf_setFd (fd : Fin 32) (p : Nat) :
    accountOf inode (s.setFd fd { s.fdtable fd with cur := p }) = (accountOf inode s).move fd p := by
  refine Account.ext rfl (funext fun i => ?_)
  show ((s.setFd fd _).fdtable i).cur = if i = fd then p else (s.fdtable i).cur
  by_cases same : i = fd
  · rw [if_pos same, same, setFd_self]
  · rw [if_neg same, setFd_of_ne _ _ same]

theorem write_accounts (written : Written own inode s) (fd : Fin 32) {buf : List UInt8} {length : Nat}
    (fits : (FileOp.write fd buf length).Fits cap inode s) :
    ∃ own' s', sfsWriteWith cap s (fd.val : Nat) buf length = .ok ((length : Nat), s') ∧ Written own' inode s' ∧
      accountOf inode s' = ((FileOp.write fd buf length).reference (accountOf inode s)).2 := by
  obtain ⟨file, source, position, ids, free⟩ := fits
  obtain ⟨fs, chain, -⟩ := written.sound.frameChain written.role
  have framed := written.framed
  have role := written.role
  rw [← file] at chain framed free role
  obtain ⟨own', s₁, s', resize, run, kept, grows, fds, cur, -⟩ := sfsWriteWith_stages buf (fdIndex_val fd) rfl written.sound
    written.loaded role framed (writeRoom_firstFrame chain framed position ids free) (by omega)
  obtain ⟨t, resize', -⟩ := @resizeStage_small s inode fd (s.fdtable fd).cur length file rfl (by omega)
  obtain rfl := Except.ok.inj (resize.symm.trans resize')
  rw [file] at kept grows
  have size' : size (s'.disk.read inode) = max (size (s.disk.read inode)) ((s.fdtable fd).cur + length) := by
    have small := (s.disk.read inode).word_lt 0
    rw [kept, resized, Image.read_write, size_setSize]
    unfold size
    omega
  refine ⟨own', s', run, ⟨grows.sound, ?_, grows.grows.role written.role, ?_⟩, Account.ext size' (funext fun i => ?_)⟩
  · rw [show s'.sb = s.sb from grows.grows.sb]
    exact written.loaded
  · rw [grows.first]
    exact written.framed
  · show (s'.fdtable i).cur = if i = fd then (s.fdtable fd).cur + length else (s.fdtable i).cur
    by_cases same : i = fd
    · rw [if_pos same, same, cur, Int.toNat_natCast]
    · rw [if_neg same, fds.others i same]

theorem FileOp.observe_ok (op : FileOp) (written : Written own inode s) (fits : op.Fits cap inode s) :
    ∃ own' s', op.observe cap inode s = .ok ([op.reference (accountOf inode s)], s') ∧ Written own' inode s' ∧
      accountOf inode s' = (op.reference (accountOf inode s)).2 := by
  cases op with
  | seek fd relative loc =>
    have run := seek_accounts fd fits
    have account := @accountOf_setFd s inode fd (max 0 ((accountOf inode s).base fd loc + relative)).toNat
    refine ⟨own, s.setFd fd { s.fdtable fd with cur := (max 0 ((accountOf inode s).base fd loc + relative)).toNat }, ?_,
      ⟨written.sound, written.loaded, written.role, written.framed⟩, account⟩
    rw [observe, FileOp.run, run, ok_bind]
    dsimp only
    rw [account]
    rfl
  | write fd buf length =>
    obtain ⟨own', s', run, written', account⟩ := write_accounts written fd fits
    refine ⟨own', s', ?_, written', account⟩
    rw [observe, FileOp.run, run, ok_bind]
    dsimp only
    rw [account]
    rfl

theorem observe_accounts {ops : List FileOp} (written : Written own inode s)
    (fits : Meets (stateAfter (FileOp.observe cap inode)) (fun op s => op.Fits cap inode s) ops s) :
    answers (FileOp.observe cap inode) ops s = .ok (accounts ops (accountOf inode s)) := by
  induction ops generalizing own s with
  | nil => rfl
  | cons op ops ih =>
    obtain ⟨own', s', run, written', account⟩ := op.observe_ok written fits.1
    have rest := ih written' (fits.2 s' (by rw [stateAfter, run]; rfl))
    rw [answers, run, ok_bind]
    dsimp only
    rw [rest, ok_bind, account]
    rfl

/-- In every well-formed image the size on the disk and all cursors follow the reference, call by call. -/
theorem size_and_cursors (wf : WellFormed s.disk) (loaded : nfreemapBlocks s.sb = 1) (file : IsFile s.disk inode)
    (ops : List FileOp) (fits : Meets (stateAfter (FileOp.observe cap inode)) (fun op s => op.Fits cap inode s) ops s) :
    answers (FileOp.observe cap inode) ops s = .ok (accounts ops (accountOf inode s)) := by
  have framed : firstFrame (s.disk.read inode) ≠ 0 := file.framed wf
  have written : Written (holders s.disk) inode s := ⟨wf.sound, by rw [loaded]; decide, file.role wf.sound, framed⟩
  exact observe_accounts written fits

/-- One byte five positions behind the end of the empty file, through the second descriptor. -/
theorem write_behind_end : answers (FileOp.observe 1 3) [.seek 1 5 2, .write 1 [97] 1] oneFileLoaded =
    .ok (accounts [.seek 1 5 2, .write 1 [97] 1] (accountOf 3 oneFileLoaded)) := by
  have empty : size (oneFile.read 3) = 0 := by decide +kernel
  have sought : (FileOp.seek 1 5 2).Fits 1 3 oneFileLoaded := by
    refine ⟨rfl, .inr (.inr rfl), by decide, ?_⟩
    show ((size (oneFile.read 3) : Nat) : Int) + 5 < 127 * 512
    rw [empty]
    decide
  refine size_and_cursors oneFile_wellFormed oneFile_healthy.coherent.nfreemapBlocks oneFile_isFile _
    ⟨sought, fun s run => ⟨?_, fun _ _ => trivial⟩⟩
  rw [stateAfter, FileOp.observe, FileOp.run, seek_accounts 1 sought] at run
  obtain rfl := Except.ok.inj run
  have cursor : (max 0 ((accountOf 3 oneFileLoaded).base 1 2 + (5 : Int))).toNat = 5 := by
    show (max 0 (((size (oneFile.read 3) : Nat) : Int) + 5)).toNat = 5
    rw [empty]
    decide
  rw [cursor]
  exact ⟨rfl, by decide, by decide, by decide, (holes_le _ _ _).trans oneFile_clear⟩

end StorageStack.Sfs
