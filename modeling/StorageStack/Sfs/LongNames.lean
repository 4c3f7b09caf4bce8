import StorageStack.Sfs.FullDisk
import StorageStack.Sfs.ReadStops
import StorageStack.Sfs.Scan
import Mathlib.Data.List.Find

/-!
# Names that are too long

The name of a directory is followed by its slots, and neither `sfs_mkdir` nor `sfs_open` looks at the length of a
name. What does not fit is stored over and erased again, so that the next call makes another directory or file. A
name of 120 characters ends where the first slot begins, and is lost when a block goes there.
-/

namespace StorageStack.Sfs
open Lib CString

/-- A call that is given a name. -/
inductive Naming where
  | mkdir (temp : Block) (dirname : CString)
  | openFile (inode : Block) (dirname name : CString)

/-- The next call with the names finds the inode of the descriptor and makes nothing, whatever the other descriptors
are by then. -/
def FoundAgain (s' : State) (fd : Fin 32) (dirname name : CString) : Prop :=
  ∀ fdtable inode', findFd { s' with fdtable } ≠ none → ∃ (fd' : Fin 32) (s'' : State),
    sfsOpen { s' with fdtable } inode' dirname name = .ok ((fd'.val : Nat), s'') ∧
    (s''.fdtable fd').inodeBid = (s'.fdtable fd).inodeBid ∧ s''.disk = s'.disk

/-- A name that is too long is refused. The call returns, and what it made is found by the next one with the same
names. -/
def Naming.Kept (s : State) : Naming → Prop
  | mkdir temp dirname =>
    (120 ≤ dirname.bytes.length → ∃ s', sfsMkdir s temp dirname = .ok (-1, s') ∧ s'.disk = s.disk ∧ s'.freemap = s.freemap) ∧
    ∃ r s', sfsMkdir s temp dirname = .ok (r, s') ∧ (r = 0 → ∃ newBid s₁, sfsAllocBlock s = .ok (newBid, s₁) ∧
      sfsFindDir s' dirname = .ok newBid ∧ ∀ temp', sfsMkdir s' temp' dirname = .ok (-1, s'))
  | openFile inode dirname name =>
    (504 ≤ name.bytes.length → ∃ s', sfsOpen s inode dirname name = .ok (-1, s') ∧ s'.disk = s.disk ∧ s'.freemap = s.freemap) ∧
    ∃ r s', sfsOpen s inode dirname name = .ok (r, s') ∧ ∀ fd : Fin 32, r = (fd.val : Nat) → FoundAgain s' fd dirname name

/-- The first slot of the directory is empty and ends its name, and the next block that is allocated does not. -/
def LosesName (s : State) (dirBid : Nat) (dirname : CString) : Prop :=
  dirBid ≠ 0 ∧ dirname.bytes.length = 120 ∧ inodes (s.disk.read dirBid) 0 = 0 ∧
    ∃ b < 4096, (s.disk.read 1).bit b = false ∧ (∀ c < b, (s.disk.read 1).bit c = true) ∧ b % 256 ≠ 0

/-- The directory is there, or the name fits and a block is free; no descriptor is free; the name fits, and the file is
there, or there are blocks for it and an empty slot whose use does not lose the directory. -/
def Naming.KeptWhen (s : State) : Naming → Prop
  | mkdir _ dirname => (∃ dirBid, sfsFindDir s dirname = .ok dirBid ∧ dirBid ≠ 0) ∨
      dirname.bytes.length < 120 ∧ 0 < (s.disk.read 1).clearCount
  | openFile _ dirname name => findFd s = none ∨ name.bytes.length < 504 ∧
      ∃ dirBid, sfsFindDir s dirname = .ok dirBid ∧
        ((∃ k < SFS_DB_NINODES, Holds s.disk (s.disk.read dirBid) name.bytes k) ∨ 3 ≤ (s.disk.read 1).clearCount ∧
          (∃ k < SFS_DB_NINODES, inodes (s.disk.read dirBid) k = 0) ∧ ¬ LosesName s dirBid dirname)

variable {own own' : Owners} {s s' : State} {d : Image} {ids : List Nat} {dirname name : CString} {dir inode : Block}
  {dirBid inodeBid : Nat} {freeInode : Int}

/-! ### Directories -/

theorem first_clear_unique {map : Block} {b c : Nat} (clear : map.bit b = false) (least : ∀ e < b, map.bit e = true)
    (clear' : map.bit c = false) (least' : ∀ e < c, map.bit e = true) : b = c := by
  rcases Nat.lt_trichotomy b c with before | same | after
  · rw [least' b before] at clear
    cases clear
  · exact same
  · rw [least c after] at clear'
    cases clear'

theorem Healthy.findDir_ok (h : Healthy own s) (dirname : CString) : ∃ dirBid, sfsFindDir s dirname = .ok dirBid := by
  obtain ⟨ids, walk, -⟩ := h.walkable
  exact ⟨_, walk.findDir_eq dirname⟩

theorem Healthy.mkdir_kept (h : Healthy own s) (temp : Block) (short : dirname.bytes.length < 120)
    (free : 0 < (s.disk.read 1).clearCount) (missing : sfsFindDir s dirname = .ok 0) :
    ∃ s', sfsMkdir s temp dirname = .ok (0, s') ∧ ∃ newBid s₁, sfsAllocBlock s = .ok (newBid, s₁) ∧
      sfsFindDir s' dirname = .ok newBid ∧ ∀ temp', sfsMkdir s' temp' dirname = .ok (-1, s') := by
  obtain ⟨ids, walk, roles⟩ := h.walkable
  have absent : ∀ id ∈ ids, nameOf s.disk id ≠ dirname.bytes := by
    rcases walk.find_cases dirname with ⟨-, absent⟩ | ⟨front, id, back, rfl, found, -⟩
    · exact absent
    · exact absurd (Except.ok.inj (found.symm.trans missing)) (walk.ne_zero (by simp))
  obtain ⟨b, v, hb, clear, least, filled, run⟩ := sfsMkdir_new temp walk absent free (by omega)
  obtain ⟨v', filled', last, empty, holds⟩ := @newDir_ok dirname temp (by omega)
  obtain rfl := Except.ok.inj (filled.symm.trans filled')
  obtain ⟨rest, named⟩ := holds (by omega)
  have added := addDir_dirAdded h walk roles hb clear empty named
  have walk' := addDir_walkable (v := v) walk hb clear (walk.length_lt hb clear) (by rw [named]; simp) last
  obtain ⟨b', alloc, -, clear', least'⟩ := sfsAllocBlock_ok h.coherent.loaded free
  obtain rfl := first_clear_unique clear' least' clear least
  have first : (ids ++ [b']).find? (fun id => nameOf (s.addDir ids b' v).disk id = dirname.bytes) = some b' := by
    rw [List.find?_append, List.find?_eq_none.mpr fun id m => ?_, Option.none_or, List.find?_cons_of_pos]
    · exact decide_eq_true added.named
    · rw [decide_eq_true_iff, added.name id m]
      exact absent id m
  refine ⟨_, run, b', _, alloc, ?_, fun temp' => sfsMkdir_found walk' ⟨b', by simp, added.named⟩⟩
  rw [walk'.findDir_eq, first]
  rfl

theorem sfsMkdir_no_block (h : Healthy own s) (temp : Block) (missing : sfsFindDir s dirname = .ok 0)
    (full : (s.disk.read 1).clearCount = 0) : sfsMkdir s temp dirname = .error .undefined := by
  rw [sfsMkdir, missing, ok_bind, if_neg (by decide), sfsAllocBlock_full h.coherent.loaded full]
  rfl

theorem Healthy.mkdir_kept_iff (h : Healthy own s) (temp : Block) (dirname : CString) :
    (Naming.mkdir temp dirname).Kept s ↔ (Naming.mkdir temp dirname).KeptWhen s := by
  obtain ⟨dirBid, found⟩ := h.findDir_ok dirname
  constructor
  · rintro ⟨refused, r, s', run, -⟩
    by_cases missing : dirBid = 0
    · subst missing
      refine .inr ⟨?_, ?_⟩
      · by_contra long
        obtain ⟨s'', run', -⟩ := refused (by omega)
        cases sfsMkdir_new_returns found run'
      · by_contra full
        rw [sfsMkdir_no_block h temp found (by omega)] at run
        cases run
    · exact .inl ⟨dirBid, found, missing⟩
  · intro when
    by_cases missing : dirBid = 0
    · subst missing
      rcases when with ⟨dirBid', found', present⟩ | ⟨short, free⟩
      · exact absurd (Except.ok.inj (found'.symm.trans found)) present
      · obtain ⟨s', run, kept⟩ := h.mkdir_kept temp short free found
        exact ⟨fun long => absurd short (by omega), 0, s', run, fun _ => kept⟩
    · have run : sfsMkdir s temp dirname = .ok (-1, s) := by rw [sfsMkdir, found, ok_bind, if_pos missing]
      exact ⟨fun _ => ⟨s, run, rfl, rfl⟩, -1, s, run, fun zero => absurd zero (by decide)⟩

/-! ### What a slot does to the name -/

/-- An empty slot that is used keeps the name, unless the name ends there and the id does not end it. -/
theorem name_setWord_iff {w v : Nat} (empty : dir.word w = 0) (range : 1 ≤ w ∧ w < 128) :
    scan (dirName (dir.setWord w v)) = scan (dirName dir) ↔ ((scan (dirName dir)).length = 4 * w - 4 → v % 256 = 0) := by
  have zero : dir.get (4 * w) = 0 := by
    apply UInt8.toNat.inj
    unfold Bytes.word at empty
    show _ = 0
    omega
  have ended : (dirName dir)[4 * w - 4]? = some 0 := by
    rw [getElem?_dirName dir (by omega), show 4 + (4 * w - 4) = 4 * w by omega, zero]
  have within := length_scan_le_of_zero ended
  have stored : (dirName (dir.setWord w v))[4 * w - 4]? = some (UInt8.ofNat v) := by
    rw [getElem?_dirName _ (by omega), show 4 + (4 * w - 4) = 4 * w by omega, Bytes.get_setWord, if_pos ⟨by omega, by omega⟩,
      Nat.mul_mod_right, Nat.pow_zero, Nat.div_one]
  constructor
  · intro same reaches
    have ends : 0 ∈ dirName (dir.setWord w v) := by
      apply ends_of_length_scan_lt
      rw [same, reaches, dirName, List.length_drop, Bytes.length_toList]
      omega
    have last := getElem?_scan ends
    rw [same, reaches, stored] at last
    have low := congrArg UInt8.toNat (Option.some.inj last)
    rwa [UInt8.toNat_ofNat'] at low
  · intro fits
    refine scan_congr (List.mem_of_getElem? ended) fun i hi => ?_
    rcases Nat.lt_or_ge i (4 * w - 4) with before | here
    · rw [getElem?_dirName _ (by omega), getElem?_dirName _ (by omega), Bytes.get_setWord_of_ne _ (by omega)]
    · obtain rfl : i = 4 * w - 4 := by omega
      have low : UInt8.ofNat v = 0 := UInt8.toNat.inj (by rw [UInt8.toNat_ofNat']; exact fits (by omega))
      rw [stored, ended, low]

/-! ### Blocks that are searched for files -/

/-- A directory, or the superblock, whose slots are searched when there is no such directory. -/
structure Shelf (own : Owners) (d : Image) (dirBid : Nat) : Prop where
  used : own dirBid ≠ none
  noInode : Owners.role own dirBid ≠ some .inode
  slots : SlotsOnly own dirBid
  listed : ∀ k < SFS_DB_NINODES, inodes (d.read dirBid) k ≠ 0 → own (inodes (d.read dirBid) k) = some (.slot dirBid k)

theorem Healthy.shelf (h : Healthy own s) (padded : Padded (s.disk.read 0)) (found : sfsFindDir s dirname = .ok dirBid) :
    Shelf own s.disk dirBid := by
  by_cases missing : dirBid = 0
  · subst missing
    refine ⟨by simp [h.sound.boot], by simp [h.sound.role_zero], fun m live here behind => ?_, fun k hk used => ?_⟩
    · obtain rfl := hostKind_super (live_cases live here h.sound.role_zero)
      exact absurd behind (by decide)
    · unfold SFS_DB_NINODES at hk
      exact absurd (padded (31 + k) (by omega) (by omega)) used
  · obtain ⟨role, -⟩ := h.findDir found missing
    exact ⟨owned_of_role role, by simp [role], slotsOnly_dir role, fun k hk used => (h.slot_role role hk used).1⟩

/-- An inode that was found in a slot is found there whatever the local held. -/
theorem scanSlots_found_any {remaining count i : Nat} {v inode inode' : Block}
    (run : scanSlots d dir name remaining count freeInode inode = .ok (.found i v)) :
    scanSlots d dir name remaining count freeInode inode' = .ok (.found i v) := by
  induction remaining generalizing count freeInode inode inode' with
  | zero => cases run
  | succ remaining ih =>
    rw [scanSlots] at run ⊢
    dsimp only at run ⊢
    by_cases empty : inodes dir count = 0
    · rw [if_pos empty] at run ⊢
      exact ih run
    · rw [if_neg empty] at run ⊢
      exact run

/-- The first slot that was empty stays the one for a new file. -/
theorem scanSlots_keeps {remaining count : Nat} {f : Int} {v : Block} (some : freeInode ≠ -1)
    (run : scanSlots d dir name remaining count freeInode inode = .ok (.absent f v)) : f = freeInode := by
  induction remaining generalizing count inode with
  | zero => exact (Scan.absent.inj (Except.ok.inj run)).1.symm
  | succ remaining ih =>
    rw [scanSlots] at run
    dsimp only at run
    by_cases empty : inodes dir count = 0
    · rw [if_pos empty, if_neg some] at run
      exact ih run
    · rw [if_neg empty] at run
      obtain ⟨same, -, run⟩ := bind_ok run
      cases same with
      | true => cases run
      | false => exact ih run

/-- The scan finds the file, or the first empty slot when there is one. -/
theorem Shelf.scan (shelf : Shelf own d dirBid) (usable : ∀ {i}, Owners.role own i = some .inode → Usable (d.read i))
    (name : CString) (inode : Block) :
    (∃ k < SFS_DB_NINODES, Holds d (d.read dirBid) name.bytes k ∧
      scanSlots d (d.read dirBid) name SFS_DB_NINODES 0 (-1) inode =
        .ok (.found (inodes (d.read dirBid) k) (d.read (inodes (d.read dirBid) k)))) ∨
    (∀ k < SFS_DB_NINODES, ¬ Holds d (d.read dirBid) name.bytes k) ∧ ∃ freeInode inode',
      scanSlots d (d.read dirBid) name SFS_DB_NINODES 0 (-1) inode = .ok (.absent freeInode inode') ∧
      FreeSlot (d.read dirBid) SFS_DB_NINODES freeInode ∧ (inodes (d.read dirBid) 0 = 0 → freeInode = 0) := by
  rcases scanSlots_ok name inode (Nat.zero_add SFS_DB_NINODES)
    (fun k hk used => (usable (role_of_own (shelf.listed k hk used))).ends)
    (.start (d.read dirBid))
    (fun k hk => absurd hk (Nat.not_lt_zero k)) with found | ⟨f, v, run, free, absent⟩
  · exact .inl found
  · refine .inr ⟨absent, f, v, run, free, fun empty => ?_⟩
    rw [show SFS_DB_NINODES = 96 + 1 from rfl, scanSlots] at run
    dsimp only at run
    rw [if_pos empty, if_pos rfl] at run
    exact scanSlots_keeps (by decide) run

theorem createFile_first {dirBid' : Nat} {r : Nat × Block × State} (loaded : nfreemapBlocks s.sb ≠ 0)
    (run : createFile s dirBid' dir freeInode inode name = .ok r) :
    r.1 < 4096 ∧ (s.disk.read 1).bit r.1 = false ∧ ∀ c < r.1, (s.disk.read 1).bit c = true := by
  rw [createFile] at run
  obtain ⟨⟨i, s₁⟩, alloc, run⟩ := bind_ok run
  obtain ⟨_, -, run⟩ := bind_ok run
  obtain ⟨_, -, run⟩ := bind_ok run
  obtain ⟨_, -, run⟩ := bind_ok run
  obtain ⟨_, -, run⟩ := bind_ok run
  obtain rfl := Except.ok.inj run
  obtain ⟨-, hi, clear, least, -⟩ := sfsAllocBlock_inv loaded alloc
  exact ⟨hi, clear, least⟩

/-! ### After a file was created -/

section
variable {i : Nat}

theorem Created.built (created : Created dirBid freeInode name own s own' s' i) : Built dirBid freeInode name own s own' s' i :=
  ⟨created.sound, created.grows, created.fresh, created.owned, created.dir, created.name, created.usable, created.inodes⟩

theorem FreeSlot.inside (free : FreeSlot dir SFS_DB_NINODES freeInode) (some : freeInode ≠ -1) :
    slotWord freeInode = 31 + freeInode.toNat ∧ freeInode.toNat < SFS_DB_NINODES ∧ inodes dir freeInode.toNat = 0 := by
  have range := free.range.resolve_left some
  exact ⟨by unfold slotWord; omega, by omega, free.empty range.1⟩

/-- The directory keeps its name, unless the file is in its first slot and the name ends there. -/
theorem Built.name_iff (h : Healthy own s) (role : Owners.role own dirBid = some .dir)
    (built : Built dirBid freeInode name own s own' s' i) (free : FreeSlot (s.disk.read dirBid) SFS_DB_NINODES freeInode)
    (some : freeInode ≠ -1) : nameOf s'.disk dirBid = nameOf s.disk dirBid ↔
      ((nameOf s.disk dirBid).length = 120 → freeInode = 0 → i % 256 = 0) := by
  obtain ⟨word, range, empty⟩ := free.inside some
  have within := length_scan_le_of_zero (h.sound.dirName_zero role)
  have least := free.range
  unfold SFS_DB_NINODES at range
  rw [nameOf, nameOf, built.dir, word, name_setWord_iff empty (by omega)]
  constructor
  · intro fits length first
    exact fits (by omega)
  · intro fits length
    exact fits (by omega) (by omega)

theorem Built.find (h : Healthy own s) (built : Built dirBid freeInode name own s own' s' i)
    (free : FreeSlot (s.disk.read dirBid) SFS_DB_NINODES freeInode) (found : sfsFindDir s dirname = .ok dirBid)
    (kept : dirBid ≠ 0 → nameOf s'.disk dirBid = nameOf s.disk dirBid) : sfsFindDir s' dirname = .ok dirBid := by
  obtain ⟨ids, walk, roles⟩ := h.walkable
  have word : slotWord freeInode ≠ 0 := by
    have := free.range
    unfold slotWord
    omega
  have next : ∀ id ∈ ids, dirNext s'.disk id = dirNext s.disk id := fun id m => by
    by_cases here : id = dirBid
    · rw [dirNext, dirNext, here, built.dir]
      exact Bytes.word_setWord_of_ne _ word.symm
    · rw [dirNext, dirNext, built.grows.kept (owned_of_role (roles id m)) here]
  have names : ∀ id ∈ ids, nameOf s'.disk id = nameOf s.disk id := fun id m => by
    by_cases here : id = dirBid
    · rw [here]
      exact kept fun zero => walk.ne_zero m (here.trans zero)
    · rw [nameOf, nameOf, built.grows.kept (owned_of_role (roles id m)) here]
  have chain : Chain (dirNext s'.disk) (firstDir s'.sb) ids := by
    rw [built.grows.sb, walk.coherent.sb]
    exact Chain.congr walk.chain next
  rw [sfsFindDir, findDirFrom_ok chain (fun id m => built.sound.dirName_ends (built.grows.role (roles id m)))
    (Nat.lt_of_le_of_lt walk.short (by decide)), ← found, walk.findDir_eq,
    List.find?_congr fun id m => by rw [names id m]]

theorem Built.kept_inode (shelf : Shelf own s.disk dirBid) (built : Built dirBid freeInode name own s own' s' i) {j : Nat}
    (role : Owners.role own j = some .inode) : s'.disk.read j = s.disk.read j := by
  refine built.grows.kept (owned_of_role role) fun here => ?_
  rw [show j = dirBid from here] at role
  exact shelf.noInode role

theorem Built.slot (built : Built dirBid freeInode name own s own' s' i)
    (free : FreeSlot (s.disk.read dirBid) SFS_DB_NINODES freeInode) (some : freeInode ≠ -1) (k : Nat) :
    Sfs.inodes (s'.disk.read dirBid) k = if k = freeInode.toNat then i else Sfs.inodes (s.disk.read dirBid) k := by
  obtain ⟨word, range, -⟩ := free.inside some
  have small := built.sound.lt (b := i) (by simp [built.owned])
  unfold SFS_DB_NINODES at range
  rw [Sfs.inodes, built.dir, word, word_setWord (by omega) (by omega), Sfs.inodes]
  simp only [Nat.add_left_cancel_iff]

theorem Built.shelf (shelf : Shelf own s.disk dirBid) (built : Built dirBid freeInode name own s own' s' i)
    (free : FreeSlot (s.disk.read dirBid) SFS_DB_NINODES freeInode) (some : freeInode ≠ -1) :
    Shelf own' s'.disk dirBid := by
  obtain ⟨l, owned⟩ := Option.ne_none_iff_exists'.mp shelf.used
  have same : own' dirBid = own dirBid := by rw [built.grows.grow owned, owned]
  refine ⟨built.grows.owned shelf.used, ?_, fun m live here => ?_, fun k hk used => ?_⟩
  · unfold Owners.role Scheme.role
    rw [same]
    exact shelf.noInode
  · exact shelf.slots m (live.congr (by rw [show layout.host m = dirBid from here, same])) here
  · rw [built.slot free some] at used ⊢
    split
    · rename_i new
      rw [built.owned, slotLoc, if_neg some, new]
    · rename_i old
      rw [if_neg old] at used
      exact built.grows.grow (shelf.listed k hk used)

theorem Built.scan (h : Healthy own s) (shelf : Shelf own s.disk dirBid) (built : Built dirBid freeInode name own s own' s' i)
    (free : FreeSlot (s.disk.read dirBid) SFS_DB_NINODES freeInode) (some : freeInode ≠ -1)
    (absent : ∀ k < SFS_DB_NINODES, ¬ Holds s.disk (s.disk.read dirBid) name.bytes k) (inode : Block) :
    scanSlots s'.disk (s'.disk.read dirBid) name SFS_DB_NINODES 0 (-1) inode = .ok (.found i (s'.disk.read i)) := by
  have usable : ∀ {j}, Owners.role own' j = Option.some .inode → Usable (s'.disk.read j) := by
    intro j role
    rcases built.inodes j role with rfl | before
    · exact built.usable
    · rw [built.kept_inode shelf before]
      exact h.usable before
  rcases (built.shelf shelf free some).scan usable name inode with ⟨k, hk, holds, scanned⟩ | ⟨none, -⟩
  · by_cases new : k = freeInode.toNat
    · rwa [built.slot free some, if_pos new] at scanned
    · have stored := built.slot free some k
      rw [if_neg new] at stored
      have used : Sfs.inodes (s.disk.read dirBid) k ≠ 0 := stored ▸ holds.1
      have named := holds.2
      rw [stored, fileOf, built.kept_inode shelf (role_of_own (shelf.listed k hk used))] at named
      exact absurd ⟨used, named⟩ (absent k hk)
  · obtain ⟨-, range, -⟩ := free.inside some
    have stored := built.slot free some freeInode.toNat
    rw [if_pos rfl] at stored
    have zero : i ≠ 0 := by
      rintro rfl
      have fresh := built.fresh
      rw [h.sound.boot] at fresh
      cases fresh
    exact absurd ⟨by rwa [stored], by rw [stored]; exact built.name⟩ (none freeInode.toNat range)

end

/-! ### Opening twice -/

section
variable {fd : Fin 32} {i : Nat} {v : Block}

theorem findFd_ne_none (fd : Fin 32) (unused : (s.fdtable fd).valid = 0) : findFd s ≠ none := fun none =>
  List.find?_eq_none.mp none fd (List.mem_finRange fd) (decide_eq_true unused)

theorem sfsOpen_again (unfull : findFd s ≠ none) (found : sfsFindDir s dirname = .ok dirBid)
    (scanned : scanSlots s.disk (s.disk.read dirBid) name SFS_DB_NINODES 0 (-1) inode = .ok (.found i v)) :
    ∃ (fd : Fin 32) (s' : State), sfsOpen s inode dirname name = .ok ((fd.val : Nat), s') ∧
      (s'.fdtable fd).inodeBid = i ∧ s'.disk = s.disk := by
  obtain ⟨fd, free⟩ := Option.ne_none_iff_exists'.mp unfull
  exact ⟨fd, _, sfsOpen_found free found scanned, by rw [setFd_self], rfl⟩

/-- A file that is found is found again. -/
theorem Shelf.open_found {k : Nat} (shelf : Shelf own s.disk dirBid)
    (usable : ∀ {i}, Owners.role own i = some .inode → Usable (s.disk.read i)) (found : sfsFindDir s dirname = .ok dirBid)
    (free : findFd s = some fd) (hk : k < SFS_DB_NINODES) (holds : Holds s.disk (s.disk.read dirBid) name.bytes k) (inode : Block) :
    ∃ s', sfsOpen s inode dirname name = .ok ((fd.val : Nat), s') ∧
      FoundAgain s' fd dirname name := by
  rcases shelf.scan usable name inode with ⟨k, hk, holds, scanned⟩ | ⟨absent, -⟩
  · refine ⟨_, sfsOpen_found free found scanned, fun fdtable inode' unfull => ?_⟩
    rw [setFd_self]
    exact sfsOpen_again unfull found (scanSlots_found_any scanned)
  · exact absurd holds (absent k hk)

/-- A file that is created goes to a slot where the next call finds it. -/
theorem Healthy.open_created (h : Healthy own s) (padded : Padded (s.disk.read 0)) (found : sfsFindDir s dirname = .ok dirBid)
    (free : findFd s = some fd) (fits : name.bytes.length ≤ 503) (room : 3 ≤ (s.disk.read 1).clearCount)
    (absent : ∀ k < SFS_DB_NINODES, ¬ Holds s.disk (s.disk.read dirBid) name.bytes k)
    (unused : ∃ k < SFS_DB_NINODES, inodes (s.disk.read dirBid) k = 0) (keeps : ¬ LosesName s dirBid dirname) (inode : Block) :
    ∃ s', sfsOpen s inode dirname name = .ok ((fd.val : Nat), s') ∧
      FoundAgain s' fd dirname name := by
  have shelf := h.shelf padded found
  rcases shelf.scan h.usable name inode with ⟨k, hk, holds, -⟩ | ⟨-, f, v, scanned, slots, -⟩
  · exact absurd holds (absent k hk)
  obtain ⟨own', s₁, i, v', created, built, -⟩ := createFile_at v h shelf.used shelf.slots slots fits room
  have run := sfsOpen_absent free found scanned
  rw [created, ok_bind] at run
  refine ⟨_, run, fun fdtable inode' unfull => ?_⟩
  obtain ⟨e, he, empty⟩ := unused
  have inside : f ≠ -1 := fun none => slots.none none e he empty
  have again : sfsFindDir s₁ dirname = .ok dirBid := built.find h slots found fun some => by
    obtain ⟨role, named⟩ := h.findDir found some
    rw [built.name_iff h role slots inside]
    intro length first
    by_contra low
    obtain ⟨hi, clear, least⟩ := createFile_first h.coherent.loaded created
    obtain ⟨-, -, unused⟩ := slots.inside inside
    rw [first] at unused
    exact keeps ⟨some, by rw [← named, length], unused, i, hi, clear, least, low⟩
  rw [setFd_self]
  exact sfsOpen_again unfull again (built.scan h shelf slots inside absent inode')

/-- A call that makes a file has the blocks for it. -/
theorem Healthy.open_room (h : Healthy own s) (padded : Padded (s.disk.read 0)) (found : sfsFindDir s dirname = .ok dirBid)
    (free : findFd s = some fd) (absent : ∀ k < SFS_DB_NINODES, ¬ Holds s.disk (s.disk.read dirBid) name.bytes k) {r : Int}
    (run : sfsOpen s inode dirname name = .ok (r, s')) : 3 ≤ (s.disk.read 1).clearCount := by
  have shelf := h.shelf padded found
  rcases shelf.scan h.usable name inode with ⟨k, hk, holds, -⟩ | ⟨-, f, v, scanned, -⟩
  · exact absurd holds (absent k hk)
  · rw [sfsOpen_absent free found scanned] at run
    obtain ⟨made, created, -⟩ := bind_ok run
    exact (createFile_needs h.sound h.coherent.loaded shelf.used created).2

/-- A file that is in no slot of the directory that is found now is not opened. -/
theorem Healthy.other_file {k : Nat} (h : Healthy own s) (padded : Padded (s.disk.read 0))
    (owned : own i = some (.slot dirBid k)) (apart : sfsFindDir s dirname = .ok dirBid → SFS_DB_NINODES ≤ k)
    (run : sfsOpen s inode dirname name = .ok ((fd.val : Nat), s')) : (s'.fdtable fd).inodeBid ≠ i := by
  obtain ⟨ids, walk, -⟩ := h.walkable
  have found := walk.findDir_eq dirname
  generalize (ids.find? fun id => nameOf s.disk id = dirname.bytes).getD 0 = dir at found
  have shelf := h.shelf padded found
  cases free : findFd s with
  | none =>
    rw [sfsOpen_full free] at run
    have failed := (Prod.mk.inj (Except.ok.inj run)).1
    omega
  | some fd₀ =>
    have valid := sfsOpen_free free run
    obtain rfl : fd = fd₀ := Fin.ext (by omega)
    rintro same
    rcases shelf.scan h.usable name inode with ⟨j, hj, holds, scanned⟩ | ⟨-, f, v, scanned, -⟩
    · rw [sfsOpen_found free found scanned] at run
      obtain rfl := (Prod.mk.inj (Except.ok.inj run)).2
      rw [setFd_self] at same
      have listed := shelf.listed j hj holds.1
      rw [show inodes (s.disk.read dir) j = i from same, owned] at listed
      obtain ⟨rfl, rfl⟩ := Loc.slot.inj (Option.some.inj listed)
      exact absurd (apart found) (by omega)
    · rw [sfsOpen_absent free found scanned] at run
      obtain ⟨made, created, run⟩ := bind_ok run
      obtain rfl := (Prod.mk.inj (Except.ok.inj run)).2
      rw [setFd_self] at same
      obtain ⟨-, clear, -⟩ := createFile_first h.coherent.loaded created
      rw [show made.1 = i from same] at clear
      rw [h.sound.free_of_clear clear] at owned
      cases owned

/-- A file that is created in a full directory, or in one that loses its name, is not found again. -/
theorem Healthy.open_lost (h : Healthy own s) (padded : Padded (s.disk.read 0)) (found : sfsFindDir s dirname = .ok dirBid)
    (free : findFd s = some fd) (fits : name.bytes.length ≤ 503) (room : 3 ≤ (s.disk.read 1).clearCount)
    (absent : ∀ k < SFS_DB_NINODES, ¬ Holds s.disk (s.disk.read dirBid) name.bytes k)
    (lost : (∀ k < SFS_DB_NINODES, inodes (s.disk.read dirBid) k ≠ 0) ∨ LosesName s dirBid dirname) :
    ¬ (Naming.openFile inode dirname name).Kept s := by
  rintro ⟨-, r, s', run', kept⟩
  have present : dirBid ≠ 0 := by
    rintro rfl
    rcases lost with full | loses
    · exact full 0 (by decide) (padded 31 (by decide) (by decide))
    · exact loses.1 rfl
  obtain ⟨role, named⟩ := h.findDir found present
  have shelf := h.shelf padded found
  rcases shelf.scan h.usable name inode with ⟨k, hk, holds, -⟩ | ⟨-, f, v, scanned, slots, first⟩
  · exact absent k hk holds
  obtain ⟨own', s₁, i, v', created, built⟩ := createFile_ok v h role slots fits room
  have run := sfsOpen_absent free found scanned
  rw [created, ok_bind] at run
  have healthy := built.healthy h role
  have zero : s₁.disk.read 0 = s.disk.read 0 := built.grows.kept (by simp [h.sound.boot]) present.symm
  obtain ⟨rfl, rfl⟩ := Prod.mk.inj (Except.ok.inj (run.symm.trans run'))
  obtain ⟨fd', s₂, again, same, -⟩ := kept fd rfl (fun _ => ⟨.zero, 0, 0, 0, 0⟩) inode (findFd_ne_none 0 rfl)
  have healthy' : Healthy own' { s₁ with fdtable := fun _ => ⟨.zero, 0, 0, 0, 0⟩ } := healthy.congr rfl rfl rfl
  refine healthy'.other_file (by rw [← zero] at padded; exact padded) built.owned (fun found' => ?_) again
    (same.trans (by rw [setFd_self]))
  by_cases inside : f = -1
  · rw [if_pos inside]
  · exfalso
    obtain ⟨-, range, empty⟩ := slots.inside inside
    rcases lost with full | ⟨-, length, unused, b, hb, clear, least, high⟩
    · exact full f.toNat range empty
    · obtain ⟨-, named'⟩ := healthy'.findDir found' present
      have low := (built.built.name_iff h role slots inside).mp (named'.trans named.symm) (by rw [named, length]) (first unused)
      obtain ⟨hi, clear', least'⟩ := createFile_first h.coherent.loaded created
      rw [first_clear_unique clear least clear' least'] at high
      exact high low

theorem Healthy.open_kept_iff (h : Healthy own s) (padded : Padded (s.disk.read 0)) (inode : Block) (dirname name : CString) :
    (Naming.openFile inode dirname name).Kept s ↔ (Naming.openFile inode dirname name).KeptWhen s := by
  obtain ⟨dirBid, found⟩ := h.findDir_ok dirname
  constructor
  · intro kept
    cases free : findFd s with
    | none => exact .inl free
    | some fd =>
      have short : name.bytes.length < 504 := by
        by_contra long
        obtain ⟨s', run, -⟩ := kept.1 (by omega)
        have valid := sfsOpen_free free run
        omega
      refine .inr ⟨short, dirBid, found, ?_⟩
      by_cases listed : ∃ k < SFS_DB_NINODES, Holds s.disk (s.disk.read dirBid) name.bytes k
      · exact .inl listed
      · have absent : ∀ k < SFS_DB_NINODES, ¬ Holds s.disk (s.disk.read dirBid) name.bytes k :=
          fun k hk holds => listed ⟨k, hk, holds⟩
        obtain ⟨-, r, s', run, -⟩ := id kept
        have room := h.open_room padded found free absent run
        by_contra not
        refine h.open_lost padded found free (by omega) room absent ?_ kept
        by_cases full : ∀ k < SFS_DB_NINODES, inodes (s.disk.read dirBid) k ≠ 0
        · exact .inl full
        · push Not at full
          by_contra keeps
          exact not (.inr ⟨room, full, fun loses => keeps (.inr loses)⟩)
  · rintro (full | ⟨short, dirBid', found', when⟩)
    · have run : sfsOpen s inode dirname name = .ok (-1, s) := sfsOpen_full full
      refine ⟨fun _ => ⟨s, run, rfl, rfl⟩, -1, s, run, fun fd same => ?_⟩
      omega
    · obtain rfl := Except.ok.inj (found'.symm.trans found)
      cases free : findFd s with
      | none =>
        have run : sfsOpen s inode dirname name = .ok (-1, s) := sfsOpen_full free
        refine ⟨fun _ => ⟨s, run, rfl, rfl⟩, -1, s, run, fun fd same => ?_⟩
        omega
      | some fd =>
        obtain ⟨s', run, kept⟩ : ∃ s', sfsOpen s inode dirname name = .ok ((fd.val : Nat), s') ∧
            FoundAgain s' fd dirname name := by
          by_cases listed : ∃ k < SFS_DB_NINODES, Holds s.disk (s.disk.read dirBid') name.bytes k
          · obtain ⟨k, hk, holds⟩ := listed
            exact (h.shelf padded found).open_found h.usable found free hk holds inode
          · obtain ⟨room, unused, keeps⟩ := when.resolve_left listed
            exact h.open_created padded found free (by omega) room (fun k hk holds => listed ⟨k, hk, holds⟩) unused keeps inode
        refine ⟨fun long => absurd short (by omega), _, s', run, fun fd' same => ?_⟩
        obtain rfl : fd' = fd := Fin.ext (by omega)
        exact kept

/-- Names are kept exactly when they fit, or nothing depends on them. -/
theorem names_kept_iff (h : Healthy own s) (padded : Padded (s.disk.read 0)) (q : Naming) : q.Kept s ↔ q.KeptWhen s := by
  cases q with
  | mkdir temp dirname => exact h.mkdir_kept_iff temp dirname
  | openFile inode dirname name => exact h.open_kept_iff padded inode dirname name

theorem padded_start : Padded ((start .initial).disk.read 0) := by
  intro k low _
  rw [← (coherent_start .initial).sb, sb_start, formatted, Bytes.word_setWord_of_ne _ (by omega),
    Bytes.word_setWord_of_ne _ (by omega), Bytes.word_setWord_of_ne _ (by omega), Bytes.word_setWord_of_ne _ (by omega)]
  exact Bytes.word_zero k

/-- A short name in a new file system. -/
theorem short_name_kept : (Naming.mkdir .zero slash).Kept (start .initial) :=
  (names_kept_iff (serves_start .initial).healthy padded_start (.mkdir .zero slash)).mpr
    (.inr ⟨by decide, free_start .initial⟩)

/-- A name of 120 characters. -/
def longName : CString := ⟨List.replicate 120 97, fun c m => by rw [List.eq_of_mem_replicate m]; decide⟩

/-- It is not refused. -/
theorem long_name_accepted : ¬ ∀ (own : Owners) (s : State) (q : Naming), Healthy own s → Padded (s.disk.read 0) → q.Kept s := by
  intro claim
  have healthy := (serves_start .initial).healthy
  have kept := claim bare (start .initial) (.mkdir .zero longName) healthy padded_start
  rcases (healthy.mkdir_kept_iff .zero longName).mp kept with ⟨dirBid, found, present⟩ | ⟨short, -⟩
  · obtain ⟨missing, -⟩ | ⟨front, id, back, none, -⟩ := (walkable_start .initial).find_cases longName
    · exact present (Except.ok.inj (found.symm.trans missing))
    · cases front <;> cases none
  · exact absurd short (by decide)

end

end StorageStack.Sfs
