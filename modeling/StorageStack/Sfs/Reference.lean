import StorageStack.Sfs.FileImage
import StorageStack.Sfs.Space
import Mathlib.Algebra.BigOperators.Group.List.Basic

/-!
# The file system without blocks

What the file system is for, without its image: a list of directories, a list of files, what each file holds,
and for each descriptor the file and the position it stands for. `Mirrors` relates this to a state. The number
of free blocks follows from it, so what a call needs can be said here.
-/

namespace StorageStack.Sfs
open Lib CString

instance lawfulName : LawfulBEq (List UInt8) := inferInstance

instance lawfulPair : LawfulBEq Pair := inferInstance

/-- A descriptor. It keeps its file when it is closed, and loses it when the file is removed. -/
structure Handle where
  valid : Bool
  file : Option (Pair × Nat)

structure Reference where
  dirs : List (List UInt8)
  files : List Pair
  content : Pair → FileRef
  handles : Fin 32 → Handle

namespace Reference

def start : Reference := ⟨[], [], fun _ => .empty, fun _ => ⟨false, none⟩⟩

/-- The blocks that are left: the superblock and the freemap take two, each directory one. -/
def free (ref : Reference) : Nat := 4094 - (ref.dirs.length + (ref.files.map fun p => (ref.content p).blocks).sum)

/-- The descriptor, its file and its position. -/
def opened (ref : Reference) (fd : Int) : Option (Fin 32 × Pair × Nat) :=
  match fdIndex fd with
  | .ok slot => (ref.handles slot).file.map (slot, ·)
  | .error _ => none

def setHandle (ref : Reference) (slot : Fin 32) (handle : Handle) : Reference :=
  { ref with handles := fun i => if i = slot then handle else ref.handles i }

/-- The position of a descriptor is set. -/
def move (ref : Reference) (slot : Fin 32) (p : Pair) (cur : Nat) : Reference :=
  ref.setHandle slot { ref.handles slot with file := some (p, cur) }

def setContent (ref : Reference) (p : Pair) (file : FileRef) : Reference :=
  { ref with content := fun q => if q = p then file else ref.content q }

/-- A pair that is not there yet becomes an empty file. -/
def create (ref : Reference) (p : Pair) : Reference :=
  if p ∈ ref.files then ref else { ref with files := ref.files ++ [p] }.setContent p .empty

/-- All descriptors of the pair lose their file. -/
def drop (ref : Reference) (p : Pair) : Reference :=
  { ref with
    files := ref.files.erase p
    handles := fun i =>
      if (ref.handles i).file.map Prod.fst = some p then { ref.handles i with file := none } else ref.handles i }

/-- The first descriptor that is not in use. -/
def unused (ref : Reference) : Option (Fin 32) := (List.finRange 32).find? fun i => !(ref.handles i).valid

/-- Where a seek starts to count. -/
def base (ref : Reference) (p : Pair) (cur : Nat) (loc : Int) : Nat :=
  if loc = 0 then 0 else if loc = 1 then cur else (ref.content p).bytes.length

end Reference

/-! ### Calls and restarts -/

/-- A call, or the end of a process and the start of one that loads the image. -/
inductive Event where
  | call (c : Call)
  | restart

/-- The returned value, and what a read leaves in the buffer. -/
abbrev Reply := Int × List UInt8

def Event.observe (e : Event) (s : State) : Outcome (List Reply × State) :=
  match e with
  | restart => .ok ([(0, [])], sfsReloadfs { State.initial with disk := s.disk })
  | call (.read fd buf length) => do
    let (r, buf, s) ← sfsRead s fd buf length
    .ok ([(r, buf)], s)
  | call c => do
    let (r, s) ← c.run s
    .ok ([(r, [])], s)

def Call.reply (ref : Reference) : Call → Reply × Reference
  | mkfs => ((0, []), ref)
  | printInfo => ((0, []), ref)
  | mkdir _ dirname =>
    if dirname.bytes ∈ ref.dirs then ((-1, []), ref) else ((0, []), { ref with dirs := ref.dirs ++ [dirname.bytes] })
  | rmdir dirname =>
    if dirname.bytes ∈ ref.dirs then ((0, []), { ref with dirs := ref.dirs.erase dirname.bytes }) else ((-1, []), ref)
  | lsdir => (((ref.dirs.length : Nat), []), ref)
  | ls => (((ref.files.length : Nat), []), ref)
  | openFile _ dirname name =>
    match ref.unused with
    | none => ((-1, []), ref)
    | some slot =>
      (((slot.val : Nat), []),
        (ref.create (dirname.bytes, name.bytes)).setHandle slot ⟨true, some ((dirname.bytes, name.bytes), 0)⟩)
  | close fd =>
    match fdIndex fd with
    | .ok slot => ((0, []), ref.setHandle slot { ref.handles slot with valid := false })
    | .error _ => ((0, []), ref)
  | remove fd =>
    match ref.opened fd with
    | some (_, p, _) => ((0, []), ref.drop p)
    | none => ((0, []), ref)
  | write _ fd buf length =>
    match ref.opened fd with
    | some (slot, p, cur) =>
      ((length, []), (ref.setContent p ((ref.content p).write cur length.toNat buf)).move slot p (cur + length.toNat))
    | none => ((0, []), ref)
  | read fd buf length =>
    match ref.opened fd with
    | some (slot, p, cur) => ((length, (ref.content p).read cur length.toNat buf), ref.move slot p (cur + length.toNat))
    | none => ((0, []), ref)
  | seek fd relative loc =>
    match ref.opened fd with
    | some (slot, p, cur) => ((0, []), ref.move slot p (max 0 (ref.base p cur loc + relative)).toNat)
    | none => ((0, []), ref)
  | eof fd =>
    match ref.opened fd with
    | some (_, p, cur) => ((if cur > (ref.content p).bytes.length then 1 else 0, []), ref)
    | none => ((0, []), ref)

def Event.reply (e : Event) (ref : Reference) : Reply × Reference :=
  match e with
  | restart => ((0, []), { ref with handles := fun _ => ⟨false, none⟩ })
  | call c => c.reply ref

/-- What a call needs: directories that exist, descriptors of files that are there, free blocks, and transfers that
end in the first frame, with room for their ids. A read asks for attached blocks, a directory goes without files,
and the second store of `sfs_remove` hits no other file. -/
def Call.Suits (s : State) (ref : Reference) : Call → Prop
  | printInfo => True
  | mkdir _ dirname => dirname.bytes.length ≤ 119 ∧ (dirname.bytes ∉ ref.dirs → 1 ≤ ref.free)
  | rmdir dirname => ∀ p ∈ ref.files, p.1 ≠ dirname.bytes
  | lsdir => True
  | ls => True
  | openFile _ dirname name => dirname.bytes ∈ ref.dirs ∧ name.bytes.length ≤ 503 ∧
      ((dirname.bytes, name.bytes) ∉ ref.files →
        (ref.files.filter (·.1 = dirname.bytes)).length < SFS_DB_NINODES ∧ 3 ≤ ref.free)
  | close fd => Indexed fd
  | remove fd => ∃ slot p cur, ref.opened fd = some (slot, p, cur) ∧ (s.fdtable slot).inodeBid < SFS_DB_NINODES ∧
      SlotSpared s.disk (s.fdtable slot)
  | write none fd buf length => ∃ slot p cur, ref.opened fd = some (slot, p, cur) ∧ 0 ≤ length ∧ length ≤ buf.length ∧
      InFrame cur length.toNat ∧ (ref.content p).holes cur length.toNat ≤ ref.free
  | read fd buf length => ∃ slot p cur, ref.opened fd = some (slot, p, cur) ∧ 0 ≤ length ∧ length ≤ buf.length ∧
      InFrame cur length.toNat ∧ (ref.content p).holes cur length.toNat = 0
  | seek fd relative loc => ∃ slot p cur, ref.opened fd = some (slot, p, cur) ∧ (loc = 0 ∨ loc = 1 ∨ loc = 2) ∧
      -2147483648 ≤ ref.base p cur loc + relative ∧ ref.base p cur loc + relative < 2147483648
  | eof fd => (ref.opened fd).isSome = true
  | _ => False

def Event.Suits (e : Event) (w : State × Reference) : Prop :=
  match e with
  | restart => True
  | call c => c.Suits w.1 w.2

section
variable {α β γ : Type}

theorem exists_some_iff (P : α → β → γ → Prop) (a : α) (b : β) (c : γ) :
    (∃ a' b' c', some (a, b, c) = some (a', b', c') ∧ P a' b' c') ↔ P a b c := by
  constructor
  · rintro ⟨a', b', c', same, holds⟩
    cases same
    exact holds
  · exact fun holds => ⟨a, b, c, rfl, holds⟩

theorem not_exists_none (P : α → β → γ → Prop) : ¬ ∃ a b c, none = some (a, b, c) ∧ P a b c := by
  rintro ⟨a, b, c, same, -⟩
  cases same

instance decidableHeld (o : Option (α × β × γ)) (P : α → β → γ → Prop) [∀ a b c, Decidable (P a b c)] :
    Decidable (∃ a b c, o = some (a, b, c) ∧ P a b c) :=
  match o with
  | none => .isFalse (not_exists_none P)
  | some (a, b, c) => decidable_of_iff (P a b c) (exists_some_iff P a b c).symm

end

instance (d : Image) (entry : Fd) : Decidable (SlotSpared d entry) := inferInstanceAs (Decidable (_ ∨ _))

instance (s : State) (ref : Reference) (c : Call) : Decidable (c.Suits s ref) :=
  match c with
  | .mkfs => inferInstanceAs (Decidable False)
  | .printInfo => inferInstanceAs (Decidable True)
  | .mkdir .. => inferInstanceAs (Decidable (_ ∧ _))
  | .rmdir _ => inferInstanceAs (Decidable (∀ _ ∈ _, _))
  | .lsdir => inferInstanceAs (Decidable True)
  | .ls => inferInstanceAs (Decidable True)
  | .openFile .. => inferInstanceAs (Decidable (_ ∧ _ ∧ _))
  | .close _ => inferInstanceAs (Decidable (_ ∧ _))
  | .remove _ => inferInstanceAs (Decidable (∃ _ _ _, _ ∧ _))
  | .write none _ _ _ => inferInstanceAs (Decidable (∃ _ _ _, _ ∧ _))
  | .write (some _) _ _ _ => inferInstanceAs (Decidable False)
  | .read .. => inferInstanceAs (Decidable (∃ _ _ _, _ ∧ _))
  | .seek .. => inferInstanceAs (Decidable (∃ _ _ _, _ ∧ _))
  | .eof _ => inferInstanceAs (Decidable (_ = true))

instance (e : Event) (w : State × Reference) : Decidable (e.Suits w) :=
  match e with
  | .restart => inferInstanceAs (Decidable True)
  | .call c => inferInstanceAs (Decidable (c.Suits w.1 w.2))

/-! ### The relation -/

/-- The reference as the list of names that the scan finds. -/
def Reference.named (ref : Reference) (s : State) : Named :=
  ⟨⟨s, fun i => (ref.handles i).file.isSome⟩, ref.files, fun i => ((ref.handles i).file.map Prod.fst).getD ([], [])⟩

/-- Each slot in use has the file of its pair behind it. -/
def Contents (d : Image) (ids : List Nat) (content : Pair → FileRef) : Prop :=
  ∀ id ∈ ids, ∀ k < SFS_DB_NINODES, inodes (d.read id) k ≠ 0 → Stands d (inodes (d.read id) k) (content (pairAt d id k))

/-- The state has the directories, the files and the descriptors of the reference, and no block is lost. -/
structure Mirrors (own : Owners) (ids : List Nat) (s : State) (ref : Reference) : Prop where
  tracks : Tracks own (ref.named s) ids
  tight : Tight own s.disk
  dirs : ids.map (nameOf s.disk) = ref.dirs
  contents : Contents s.disk ids ref.content
  valid : ∀ i, (ref.handles i).valid = false ↔ (s.fdtable i).valid = 0
  cursor : ∀ i p cur, (ref.handles i).file = some (p, cur) → (s.fdtable i).cur = cur

end StorageStack.Sfs
