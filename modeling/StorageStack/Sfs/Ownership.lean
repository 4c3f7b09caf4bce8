import StorageStack.Lib.Anchors
import StorageStack.Lib.Chain
import StorageStack.Sfs.Freemap

/-!
# Who owns a block

Block ids are stored in six kinds of locations. `Sound own d` says that `own` records for each block in
use the location it was allocated for, that its bit is set, and that no location of a block in use names
a block of somebody else. It speaks about the image only; what memory holds is `Coherent`.
-/

namespace StorageStack.Sfs
open Lib

/-- Where a block id is stored. `boot` stands for the code that knows block 0 without being told. -/
inductive Loc where
  | boot
  | firstDir
  | nextDir (dir : Nat)
  | slot (dir k : Nat)
  | firstFrame (inode : Nat)
  | nextFrame (frame : Nat)
  | content (frame j : Nat)
  deriving DecidableEq

inductive Kind where
  | super | dir | inode | frame | data
  deriving DecidableEq

namespace Loc

def host : Loc → Nat
  | boot => 0
  | firstDir => 0
  | nextDir dir => dir
  | slot dir _ => dir
  | firstFrame inode => inode
  | nextFrame frame => frame
  | content frame _ => frame

/-- The member of the host block, as an index of words. -/
def field : Loc → Nat
  | boot => 0
  | firstDir => 3
  | nextDir _ => 0
  | slot _ k => 31 + k
  | firstFrame _ => 1
  | nextFrame _ => 0
  | content _ j => 1 + j

def hostKind : Loc → Option Kind
  | boot => none
  | firstDir => some .super
  | nextDir _ => some .dir
  | slot _ k => if k < SFS_DB_NINODES then some .dir else none
  | firstFrame _ => some .inode
  | nextFrame _ => some .frame
  | content _ j => if j < SFS_FRAME_COUNT then some .frame else none

def kind : Loc → Kind
  | boot => .super
  | firstDir => .dir
  | nextDir _ => .dir
  | slot _ _ => .inode
  | firstFrame _ => .frame
  | nextFrame _ => .frame
  | content _ _ => .data

/-- The id a location holds. -/
def read (d : Image) (l : Loc) : Nat := (d.read l.host).word l.field

end Loc

def layout : Scheme Loc Kind := ⟨Loc.host, Loc.hostKind, Loc.kind⟩

abbrev Owners := Nat → Option Loc

abbrev Owners.role (own : Owners) (b : Nat) : Option Kind := layout.role own b

structure Sound (own : Owners) (d : Image) : Prop where
  boot : own 0 = some .boot
  map : own 1 = none
  mapBit : (d.read 1).bit 1 = true
  marked : ∀ {b l}, own b = some l → b < 4096 ∧ (d.read 1).bit b = true
  refs : layout.Sound own (Loc.read d)

variable {own own' : Owners} {d d' : Image}

theorem role_of_own {b : Nat} {l : Loc} (h : own b = some l) : Owners.role own b = some l.kind :=
  Scheme.role_of_own h

theorem owned_of_role {b : Nat} {k : Kind} (h : Owners.role own b = some k) : own b ≠ none := by
  obtain ⟨l, owned, _⟩ := Scheme.role_eq_some h
  simp [owned]

theorem owned_of_live {l : Loc} (h : layout.Live own l) : own l.host ≠ none := by
  obtain ⟨l', owned, _⟩ := h.owned
  exact fun none => by rw [show layout.host l = l.host from rfl, none] at owned; cases owned

theorem Sound.lt (sound : Sound own d) {b : Nat} (h : own b ≠ none) : b < 4096 := by
  obtain ⟨l, owned⟩ := Option.ne_none_iff_exists'.mp h
  exact (sound.marked owned).1

theorem Sound.bit (sound : Sound own d) {b : Nat} (h : own b ≠ none) : (d.read 1).bit b = true := by
  obtain ⟨l, owned⟩ := Option.ne_none_iff_exists'.mp h
  exact (sound.marked owned).2

theorem Sound.ne_one (sound : Sound own d) {b : Nat} (h : own b ≠ none) : b ≠ 1 := by
  rintro rfl
  exact h sound.map

theorem Sound.role_lt (sound : Sound own d) {b : Nat} {k : Kind} (h : Owners.role own b = some k) : b < 4096 :=
  sound.lt (owned_of_role h)

theorem Sound.role_ne_one (sound : Sound own d) {b : Nat} {k : Kind} (h : Owners.role own b = some k) : b ≠ 1 :=
  sound.ne_one (owned_of_role h)

theorem Sound.role_zero (sound : Sound own d) : Owners.role own 0 = some .super := role_of_own sound.boot

theorem Sound.role_ne_zero (sound : Sound own d) {b : Nat} {k : Kind} (h : Owners.role own b = some k)
    (other : k ≠ .super) : b ≠ 0 := by
  rintro rfl
  exact other (Option.some.inj (h.symm.trans sound.role_zero))

theorem Sound.free_of_clear (sound : Sound own d) {b : Nat} (clear : (d.read 1).bit b = false) : own b = none := by
  by_contra used
  simp [sound.bit used] at clear

theorem Sound.clear_ne_one (sound : Sound own d) {b : Nat} (clear : (d.read 1).bit b = false) : b ≠ 1 := by
  rintro rfl
  simp [sound.mapBit] at clear

theorem Sound.clear_ne_zero (sound : Sound own d) {b : Nat} (clear : (d.read 1).bit b = false) : b ≠ 0 := by
  rintro rfl
  have := sound.free_of_clear clear
  simp [sound.boot] at this

/-! ### Which locations exist -/

theorem live_firstDir (sound : Sound own d) : layout.Live own .firstDir :=
  Scheme.live_of_role rfl sound.role_zero

theorem live_nextDir {dir : Nat} (h : Owners.role own dir = some .dir) : layout.Live own (.nextDir dir) :=
  Scheme.live_of_role rfl h

theorem live_slot {dir k : Nat} (h : Owners.role own dir = some .dir) (hk : k < SFS_DB_NINODES) :
    layout.Live own (.slot dir k) :=
  Scheme.live_of_role (if_pos hk) h

theorem live_firstFrame {inode : Nat} (h : Owners.role own inode = some .inode) :
    layout.Live own (.firstFrame inode) :=
  Scheme.live_of_role rfl h

theorem live_nextFrame {frame : Nat} (h : Owners.role own frame = some .frame) :
    layout.Live own (.nextFrame frame) :=
  Scheme.live_of_role rfl h

theorem live_content {frame j : Nat} (h : Owners.role own frame = some .frame) (hj : j < SFS_FRAME_COUNT) :
    layout.Live own (.content frame j) :=
  Scheme.live_of_role (if_pos hj) h

theorem live_cases {l : Loc} {b : Nat} {k : Kind} (live : layout.Live own l) (here : l.host = b)
    (h : Owners.role own b = some k) : l.hostKind = some k :=
  live.2.symm.trans (show layout.role own l.host = some k by rw [here]; exact h)

theorem hostKind_super {l : Loc} (h : l.hostKind = some .super) : l = .firstDir := by
  cases l with
  | firstDir => rfl
  | slot dir k => simp only [Loc.hostKind] at h; split at h <;> simp at h
  | content frame j => simp only [Loc.hostKind] at h; split at h <;> simp at h
  | _ => simp [Loc.hostKind] at h

theorem hostKind_dir {l : Loc} (h : l.hostKind = some .dir) :
    (∃ dir, l = .nextDir dir) ∨ ∃ dir, ∃ k < SFS_DB_NINODES, l = .slot dir k := by
  cases l with
  | nextDir dir => exact Or.inl ⟨dir, rfl⟩
  | slot dir k =>
    by_cases hk : k < SFS_DB_NINODES
    · exact Or.inr ⟨dir, k, hk, rfl⟩
    · simp [Loc.hostKind, hk] at h
  | content frame j => simp only [Loc.hostKind] at h; split at h <;> simp at h
  | _ => simp [Loc.hostKind] at h

theorem hostKind_inode {l : Loc} (h : l.hostKind = some .inode) : ∃ inode, l = .firstFrame inode := by
  cases l with
  | firstFrame inode => exact ⟨inode, rfl⟩
  | slot dir k => simp only [Loc.hostKind] at h; split at h <;> simp at h
  | content frame j => simp only [Loc.hostKind] at h; split at h <;> simp at h
  | _ => simp [Loc.hostKind] at h

theorem hostKind_frame {l : Loc} (h : l.hostKind = some .frame) :
    (∃ frame, l = .nextFrame frame) ∨ ∃ frame, ∃ j < SFS_FRAME_COUNT, l = .content frame j := by
  cases l with
  | nextFrame frame => exact Or.inl ⟨frame, rfl⟩
  | content frame j =>
    by_cases hj : j < SFS_FRAME_COUNT
    · exact Or.inr ⟨frame, j, hj, rfl⟩
    · simp [Loc.hostKind, hj] at h
  | slot dir k => simp only [Loc.hostKind] at h; split at h <;> simp at h
  | _ => simp [Loc.hostKind] at h

theorem hostKind_ne_data (l : Loc) : l.hostKind ≠ some .data := by
  intro h
  cases l with
  | slot dir k => simp only [Loc.hostKind] at h; split at h <;> simp at h
  | content frame j => simp only [Loc.hostKind] at h; split at h <;> simp at h
  | _ => simp [Loc.hostKind] at h

/-! ### What the locations name -/

theorem Sound.firstDir_owned (sound : Sound own d) (named : firstDir (d.read 0) ≠ 0) :
    own (firstDir (d.read 0)) = some .firstDir :=
  sound.refs .firstDir (live_firstDir sound) named

theorem Sound.nextDir_owned (sound : Sound own d) {dir : Nat} (h : Owners.role own dir = some .dir)
    (named : nextDir (d.read dir) ≠ 0) : own (nextDir (d.read dir)) = some (.nextDir dir) :=
  sound.refs (.nextDir dir) (live_nextDir h) named

theorem Sound.slot_owned (sound : Sound own d) {dir k : Nat} (h : Owners.role own dir = some .dir)
    (hk : k < SFS_DB_NINODES) (named : inodes (d.read dir) k ≠ 0) :
    own (inodes (d.read dir) k) = some (.slot dir k) :=
  sound.refs (.slot dir k) (live_slot h hk) named

theorem Sound.firstFrame_owned (sound : Sound own d) {inode : Nat} (h : Owners.role own inode = some .inode)
    (named : firstFrame (d.read inode) ≠ 0) : own (firstFrame (d.read inode)) = some (.firstFrame inode) :=
  sound.refs (.firstFrame inode) (live_firstFrame h) named

theorem Sound.nextFrame_owned (sound : Sound own d) {frame : Nat} (h : Owners.role own frame = some .frame)
    (named : nextFrame (d.read frame) ≠ 0) : own (nextFrame (d.read frame)) = some (.nextFrame frame) :=
  sound.refs (.nextFrame frame) (live_nextFrame h) named

theorem Sound.content_owned (sound : Sound own d) {frame j : Nat} (h : Owners.role own frame = some .frame)
    (hj : j < SFS_FRAME_COUNT) (named : content (d.read frame) j ≠ 0) :
    own (content (d.read frame) j) = some (.content frame j) :=
  sound.refs (.content frame j) (live_content h hj) named

/-- A location that names the block allocated for it does not name block 0, which the code knows without being told. -/
theorem Sound.ne_zero_of_holds (sound : Sound own d) {l : Loc} (h : layout.Holds own (Loc.read d) l) : l.read d ≠ 0 := by
  intro zero
  have owned := h.2
  rw [zero, sound.boot] at owned
  obtain rfl := Option.some.inj owned
  cases h.1.1

theorem Sound.slot_lt (sound : Sound own d) {dir k : Nat} (h : Owners.role own dir = some .dir)
    (hk : k < SFS_DB_NINODES) : inodes (d.read dir) k < 4096 := by
  by_cases named : inodes (d.read dir) k = 0
  · omega
  · exact (sound.marked (sound.slot_owned h hk named)).1

/-- The first slot ends a name that reaches it. -/
theorem Sound.dirName_zero (sound : Sound own d) {dir : Nat} (h : Owners.role own dir = some .dir) :
    (dirName (d.read dir))[123]? = some 0 := by
  have small := sound.slot_lt (k := 0) h (by decide)
  rw [inodes, Nat.add_zero] at small
  have zero : (d.read dir).get 127 = 0 :=
    @Bytes.get_eq_zero_of_word_lt _ (d.read dir) 31 (Nat.lt_trans small (by decide))
  rw [dirName, List.getElem?_drop, Bytes.getElem?_toList _ (by decide), zero]

theorem Sound.dirName_ends (sound : Sound own d) {dir : Nat} (h : Owners.role own dir = some .dir) :
    0 ∈ dirName (d.read dir) := List.mem_of_getElem? (sound.dirName_zero h)

/-! ### The empty file system -/

/-- Only the code knows block 0. -/
def bare (b : Nat) : Option Loc := if b = 0 then some .boot else none

theorem bare_eq_some {b : Nat} {l : Loc} (h : bare b = some l) : b = 0 ∧ l = .boot := by
  unfold bare at h
  split at h
  · exact ⟨‹_›, (Option.some.inj h).symm⟩
  · cases h

theorem sound_bare (empty : firstDir (d.read 0) = 0) (bits : ∀ b, b = 0 ∨ b = 1 → (d.read 1).bit b = true) :
    Sound bare d := by
  refine ⟨rfl, rfl, bits 1 (Or.inr rfl), fun {b l} owned => ?_, fun l live named => absurd ?_ named⟩
  · obtain ⟨rfl, -⟩ := bare_eq_some owned
    exact ⟨by decide, bits 0 (Or.inl rfl)⟩
  · obtain ⟨l', owned, fits⟩ := live.owned
    obtain ⟨-, rfl⟩ := bare_eq_some owned
    obtain rfl := hostKind_super fits
    exact empty

theorem no_inodes_bare {i : Nat} : Owners.role bare i ≠ some .inode := by
  intro role
  obtain ⟨l, owned, kind⟩ := Scheme.role_eq_some role
  obtain ⟨-, rfl⟩ := bare_eq_some owned
  cases kind

/-! ### Changes of one block -/

/-- A block other than the freemap is replaced; its locations name nothing or blocks they own. -/
theorem Sound.write (sound : Sound own d) {b : Nat} (hb : b < 4096) (other : b ≠ 1) {v : Block}
    (stored : ∀ l, layout.Live own l → l.host = b → v.word l.field ≠ 0 → own (v.word l.field) = some l) :
    Sound own (d.write b v) := by
  have map : (d.write b v).read 1 = d.read 1 := Image.read_write_of_ne _ _ (by omega)
  refine ⟨sound.boot, sound.map, by rw [map]; exact sound.mapBit, fun owned => by rw [map]; exact sound.marked owned, ?_⟩
  refine Scheme.Sound.store (b := b) sound.refs (fun l live here => ?_) (fun l live here => ?_)
  · have read : Loc.read (d.write b v) l = v.word l.field := by
      rw [Loc.read, show l.host = b from here, Image.read_write]
    rw [read]
    exact stored l live here
  · have small := sound.lt (owned_of_live live)
    have different : l.host ≠ b := here
    rw [Loc.read, Image.read_write_of_ne _ _ (by omega), Loc.read]

theorem Sound.write_dir (sound : Sound own d) {dir : Nat} (h : Owners.role own dir = some .dir) {v : Block}
    (next : nextDir v ≠ 0 → own (nextDir v) = some (.nextDir dir))
    (slots : ∀ k < SFS_DB_NINODES, inodes v k ≠ 0 → own (inodes v k) = some (.slot dir k)) :
    Sound own (d.write dir v) := by
  apply sound.write (sound.role_lt h) (sound.role_ne_one h)
  intro l live here
  rcases hostKind_dir (live_cases live here h) with ⟨dir', rfl⟩ | ⟨dir', k, hk, rfl⟩
  · obtain rfl : dir' = dir := here
    exact next
  · obtain rfl : dir' = dir := here
    exact slots k hk

theorem Sound.write_inode (sound : Sound own d) {inode : Nat} (h : Owners.role own inode = some .inode) {v : Block}
    (first : firstFrame v ≠ 0 → own (firstFrame v) = some (.firstFrame inode)) : Sound own (d.write inode v) := by
  apply sound.write (sound.role_lt h) (sound.role_ne_one h)
  intro l live here
  obtain ⟨inode', rfl⟩ := hostKind_inode (live_cases live here h)
  obtain rfl : inode' = inode := here
  exact first

theorem Sound.write_frame (sound : Sound own d) {frame : Nat} (h : Owners.role own frame = some .frame) {v : Block}
    (next : nextFrame v ≠ 0 → own (nextFrame v) = some (.nextFrame frame))
    (entries : ∀ j < SFS_FRAME_COUNT, content v j ≠ 0 → own (content v j) = some (.content frame j)) :
    Sound own (d.write frame v) := by
  apply sound.write (sound.role_lt h) (sound.role_ne_one h)
  intro l live here
  rcases hostKind_frame (live_cases live here h) with ⟨frame', rfl⟩ | ⟨frame', j, hj, rfl⟩
  · obtain rfl : frame' = frame := here
    exact next
  · obtain rfl : frame' = frame := here
    exact entries j hj

theorem Sound.write_data (sound : Sound own d) {b : Nat} (h : Owners.role own b = some .data) (v : Block) :
    Sound own (d.write b v) :=
  sound.write (sound.role_lt h) (sound.role_ne_one h) fun l live here =>
    absurd (live_cases live here h) (hostKind_ne_data l)

theorem Sound.take {s : State} (sound : Sound own s.disk) {b : Nat} (hb : b < 4096)
    (clear : (s.disk.read 1).bit b = false) (l : Loc) : Sound (Function.update own b (some l)) (s.take b).disk := by
  have one := sound.clear_ne_one clear
  have zero := sound.clear_ne_zero clear
  have inside : 4 * (b / 32) + 4 ≤ 512 := by omega
  have map : (s.take b).disk.read 1 = (s.disk.read 1).setBit b := read_take_map hb one
  refine ⟨by rw [Function.update_of_ne zero.symm]; exact sound.boot,
    by rw [Function.update_of_ne one.symm]; exact sound.map,
    by rw [map]; exact Bytes.bit_setBit_of_bit _ inside sound.mapBit, fun {c l'} owned => ?_, ?_⟩
  · rw [map]
    by_cases new : c = b
    · subst new
      exact ⟨hb, Bytes.bit_setBit_self _ inside⟩
    · rw [Function.update_of_ne new] at owned
      have old := sound.marked owned
      exact ⟨old.1, Bytes.bit_setBit_of_bit _ inside old.2⟩
  · refine Scheme.Sound.adopt sound.refs (sound.free_of_clear clear) l (fun l' here => ?_) (fun l' live here => ?_)
    · rw [Loc.read, show l'.host = b from here, read_take_self, Bytes.word_zero]
    · have used := owned_of_live live
      rw [Loc.read, read_take_of_ne hb (sound.lt used) (sound.ne_one used) here, Loc.read]

/-! ### Chains -/

theorem Sound.dirChain (sound : Sound own d) :
    ∃ ids, Chain (fun b => nextDir (d.read b)) (firstDir (d.read 0)) ids ∧ ids.length ≤ 4096 ∧
      ∀ id ∈ ids, Owners.role own id = some .dir := by
  refine exists_chain (P := fun b => Owners.role own b = some .dir)
    (fun named => role_of_own (sound.firstDir_owned named))
    (fun x h named => role_of_own (sound.nextDir_owned h named)) (fun x h => sound.role_lt h)
    (fun x y hx hy same named => ?_) (fun x h same => ?_)
  · have owned := sound.nextDir_owned hx named
    rw [same, sound.nextDir_owned hy (same ▸ named)] at owned
    simpa using owned.symm
  · by_contra named
    have owned := sound.nextDir_owned h (same ▸ named)
    rw [same, sound.firstDir_owned named] at owned
    simp at owned

theorem Sound.frameChain (sound : Sound own d) {inode : Nat} (h : Owners.role own inode = some .inode) :
    ∃ ids, Chain (fun b => nextFrame (d.read b)) (firstFrame (d.read inode)) ids ∧ ids.length ≤ 4096 ∧
      ∀ id ∈ ids, Owners.role own id = some .frame := by
  refine exists_chain (P := fun b => Owners.role own b = some .frame)
    (fun named => role_of_own (sound.firstFrame_owned h named))
    (fun x hx named => role_of_own (sound.nextFrame_owned hx named)) (fun x hx => sound.role_lt hx)
    (fun x y hx hy same named => ?_) (fun x hx same => ?_)
  · have owned := sound.nextFrame_owned hx named
    rw [same, sound.nextFrame_owned hy (same ▸ named)] at owned
    simpa using owned.symm
  · by_contra named
    have owned := sound.nextFrame_owned hx (same ▸ named)
    rw [same, sound.firstFrame_owned h named] at owned
    simp at owned

end StorageStack.Sfs
