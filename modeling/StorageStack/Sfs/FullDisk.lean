import StorageStack.Sfs.OpenFailure

/-!
# The full disk

The superblock declares 1024 blocks and the freemap has bits for 4096. `sfs_alloc_block` takes the first clear
bit, so on a full disk it hands out blocks behind the end, and no call that needs a block fails: only
`sfs_open` can, when there is no descriptor for the file either.
-/

namespace StorageStack.Sfs
open Lib CString

/-- What may ask for a block. -/
inductive Request where
  | alloc
  | mkdir (temp : Block) (dirname : CString)
  | openFile (inode : Block) (dirname name : CString)
  | write (slot : Fin 32) (buf : List UInt8) (length : Nat)

/-- Every block behind the superblock and the freemap is in use. -/
def DiskFull (s : State) : Prop := ∀ b, 2 ≤ b → b < 1024 → (s.disk.read 1).bit b = true

/-- The name is new, or the write needs a block, and the disk is full. -/
def Request.Refusable (s : State) : Request → Prop
  | alloc => True
  | mkdir _ dirname => DiskFull s ∧ sfsFindDir s dirname = .ok 0
  | openFile _ dirname name => DiskFull s ∧ ∃ dirBid, sfsFindDir s dirname = .ok dirBid ∧ dirBid ≠ 0 ∧
      ∀ k < SFS_DB_NINODES, ¬ Holds s.disk (s.disk.read dirBid) name.bytes k
  | write slot _ length => DiskFull s ∧ ∃ fs, FrameChain s.disk (s.fdtable slot).inodeBid fs ∧
      0 < blocksNeeded s (s.fdtable slot) length fs

/-- The block handed out lies on the disk, and a call that has none to take says so and leaves the image. -/
def Request.Refused (s : State) : Request → Prop
  | alloc => ∃ b s', sfsAllocBlock s = .ok (b, s') ∧ b < nblocks s.sb
  | mkdir temp dirname => ∃ s', sfsMkdir s temp dirname = .ok (-1, s') ∧ s'.disk = s.disk ∧ s'.fdtable = s.fdtable
  | openFile inode dirname name =>
      ∃ s', sfsOpen s inode dirname name = .ok (-1, s') ∧ s'.disk = s.disk ∧ s'.fdtable = s.fdtable
  | write slot buf length => ∃ r s', sfsWrite s (slot.val : Nat) buf length = .ok (r, s') ∧ (r = -1 ∨ r < length) ∧
      s'.disk = s.disk ∧ ∀ i, i ≠ slot → s'.fdtable i = s.fdtable i

/-- A bit of the disk is clear; all descriptors are in use; never. -/
def Request.RefusedWhen (s : State) : Request → Prop
  | alloc => ∃ b < 1024, (s.disk.read 1).bit b = false
  | mkdir _ _ => False
  | openFile _ _ _ => findFd s = none
  | write _ _ _ => False

variable {s s' : State}

theorem alloc_inside_iff (loaded : nfreemapBlocks s.sb = 1) (blocks : nblocks s.sb = 1024) :
    Request.alloc.Refused s ↔ Request.alloc.RefusedWhen s := by
  have one : nfreemapBlocks s.sb ≠ 0 := by rw [loaded]; decide
  constructor
  · rintro ⟨b, s', run, inside⟩
    obtain ⟨-, -, clear, -⟩ := sfsAllocBlock_inv one run
    exact ⟨b, by omega, clear⟩
  · rintro ⟨c, hc, free⟩
    obtain ⟨b, run, -, -, least⟩ := sfsAllocBlock_ok one (Bytes.clearCount_pos (by omega) free)
    refine ⟨b, _, run, ?_⟩
    by_contra outside
    have used := least c (by omega)
    rw [free] at used
    cases used

theorem sfsMkdir_new_returns {temp : Block} {dirname : CString} {r : Int} (absent : sfsFindDir s dirname = .ok 0)
    (run : sfsMkdir s temp dirname = .ok (r, s')) : r = 0 := by
  rw [sfsMkdir, absent, ok_bind, if_neg (by decide)] at run
  obtain ⟨_, -, run⟩ := bind_ok run
  obtain ⟨_, -, run⟩ := bind_ok run
  obtain ⟨_, -, run⟩ := bind_ok run
  exact (Prod.mk.inj (Except.ok.inj run)).1.symm

theorem sfsWrite_returns {fd : Int} {buf : List UInt8} {length : Nat} {r : Int}
    (run : sfsWrite s fd buf length = .ok (r, s')) : r = length := by
  rw [sfsWrite] at run
  split at run
  · rw [sfsWriteWith] at run
    obtain ⟨_, -, run⟩ := bind_ok run
    obtain ⟨_, -, run⟩ := bind_ok run
    obtain ⟨_, -, run⟩ := bind_ok run
    obtain ⟨_, -, run⟩ := bind_ok run
    exact (Prod.mk.inj (Except.ok.inj run)).1.symm
  · cases run

/-- Where a superblock is loaded, a request is refused exactly in the cases listed. -/
theorem refused_iff (loaded : nfreemapBlocks s.sb = 1) (blocks : nblocks s.sb = 1024) (q : Request) (ask : q.Refusable s) :
    q.Refused s ↔ q.RefusedWhen s := by
  cases q with
  | alloc => exact alloc_inside_iff loaded blocks
  | mkdir temp dirname =>
    refine ⟨fun refused => ?_, False.elim⟩
    obtain ⟨s', run, -⟩ := refused
    cases sfsMkdir_new_returns ask.2 run
  | openFile inode dirname name =>
    refine ⟨fun refused => ?_, fun full => ⟨s, sfsOpen_full full, rfl, rfl⟩⟩
    obtain ⟨s', run, -⟩ := refused
    show findFd s = none
    cases free : findFd s with
    | none => rfl
    | some fd =>
      have valid := sfsOpen_free free run
      omega
  | write slot buf length =>
    refine ⟨fun refused => ?_, False.elim⟩
    obtain ⟨r, s', run, less, -⟩ := refused
    have all := sfsWrite_returns run
    omega

/-- The first block after formatting. -/
theorem first_alloc_inside : Request.alloc.Refused (start .initial) := by
  have coherent := coherent_start .initial
  refine (refused_iff coherent.nfreemapBlocks coherent.nblocks .alloc trivial).mpr ⟨2, by decide, ?_⟩
  rw [bit_start]
  rfl

/-! ### A full disk -/

/-- A formatted image whose 1024 blocks are all marked. -/
def fullMap : Block := ⟨fun i => if i.val < 128 then 255 else 0⟩

def fullDisk : State := ⟨formatted .zero, fullMap, fun _ => ⟨.zero, 0, 0, 0, 0⟩,
  (Image.blank.write 0 (formatted .zero)).write 1 fullMap⟩

theorem read_fullDisk : fullDisk.disk.read 0 = formatted .zero ∧ fullDisk.disk.read 1 = fullMap := by
  refine ⟨?_, Image.read_write _ _ _⟩
  exact (Image.read_write_of_ne _ _ (by decide)).trans (Image.read_write _ _ _)

theorem fullDisk_healthy : Healthy bare fullDisk := by
  obtain ⟨super, map⟩ := read_fullDisk
  obtain ⟨magic, blocks, loaded, first⟩ := formatted_words .zero
  refine ⟨⟨super.symm, map.symm, magic, blocks, loaded⟩, sound_bare (by rw [super]; exact first) fun b used => ?_,
    fun role => absurd role no_inodes_bare⟩
  rw [map]
  rcases used with rfl | rfl
  · decide +kernel
  · decide +kernel

theorem fullDisk_full : DiskFull fullDisk := by
  have bits : ∀ b : Fin 1024, fullMap.bit b = true := by decide +kernel
  intro b _ hb
  rw [read_fullDisk.2]
  exact bits ⟨b, hb⟩

/-- Block 1024 is handed out, and a directory is made of it. -/
theorem full_disk_not_refused : WellFormed fullDisk.disk ∧ DiskFull fullDisk ∧ (Request.mkdir .zero slash).Refusable fullDisk ∧
    ¬ Request.alloc.Refused fullDisk ∧ ¬ (Request.mkdir .zero slash).Refused fullDisk ∧
    ∃ s', sfsMkdir fullDisk .zero slash = .ok (0, s') ∧ sfsFindDir s' slash = .ok 1024 := by
  have missing : sfsFindDir fullDisk slash = .ok 0 := by
    rw [sfsFindDir, show firstDir fullDisk.sb = 0 from (formatted_words .zero).2.2.2, show steps = 4294967295 + 1 from rfl,
      findDirFrom, if_pos rfl]
  have facts : (check (fun p => p.1 == 1024) (sfsAllocBlock fullDisk) &&
      check (fun p => p.1 == 0 && check (· == 1024) (sfsFindDir p.2 slash)) (sfsMkdir fullDisk .zero slash)) = true := by
    decide +kernel
  rw [Bool.and_eq_true] at facts
  obtain ⟨⟨b, s₁⟩, alloc, last⟩ := of_check facts.1
  obtain ⟨⟨r, s'⟩, made, both⟩ := of_check facts.2
  rw [Bool.and_eq_true] at both
  obtain ⟨dirBid, found, same⟩ := of_check both.2
  have blocks : nblocks fullDisk.sb = 1024 := (formatted_words .zero).2.1
  obtain rfl : b = 1024 := eq_of_beq last
  obtain rfl : r = 0 := eq_of_beq both.1
  obtain rfl : dirBid = 1024 := eq_of_beq same
  refine ⟨fullDisk_healthy.wellFormed, fullDisk_full, ⟨fullDisk_full, missing⟩, fun refused => ?_, fun refused => ?_,
    s', made, found⟩
  · obtain ⟨b, s'', run, inside⟩ := refused
    obtain ⟨rfl, -⟩ := Prod.mk.inj (Except.ok.inj (alloc.symm.trans run))
    omega
  · obtain ⟨s'', run, -⟩ := refused
    cases (Prod.mk.inj (Except.ok.inj (made.symm.trans run))).1

end StorageStack.Sfs
