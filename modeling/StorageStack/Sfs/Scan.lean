import StorageStack.Sfs.RemoveFile
import Mathlib.Data.List.Nodup
import Mathlib.Data.List.Perm.Basic

/-!
# The files of the directories

A scan over the directory blocks finds a pair of names for each slot in use. As long as no two directories
and no two files of one directory share a name the scan lists every pair once, and giving one slot another
value adds or deletes one pair.
-/

namespace StorageStack.Sfs
open Lib CString

abbrev Pair := List UInt8 × List UInt8

def usedSlots (dir : Block) : List Nat := (List.range SFS_DB_NINODES).filter (inodes dir · ≠ 0)

/-- The pair of names that slot `k` of a directory stands for. -/
def pairAt (d : Image) (id k : Nat) : Pair := (nameOf d id, fileOf d (inodes (d.read id) k))

theorem pairAt_eq_iff {d : Image} {id id' k k' : Nat} : pairAt d id k = pairAt d id' k' ↔
    nameOf d id = nameOf d id' ∧ fileOf d (inodes (d.read id) k) = fileOf d (inodes (d.read id') k') := by
  rw [pairAt, pairAt, Prod.mk.injEq]

def scanPairs (d : Image) (ids : List Nat) : List Pair :=
  ids.flatMap fun id => (usedSlots (d.read id)).map (pairAt d id)

variable {d d' : Image} {ids : List Nat}

theorem mem_usedSlots {dir : Block} {k : Nat} : k ∈ usedSlots dir ↔ k < SFS_DB_NINODES ∧ inodes dir k ≠ 0 := by
  rw [usedSlots, List.mem_filter, List.mem_range, decide_eq_true_iff]

theorem mem_scanPairs {p : Pair} :
    p ∈ scanPairs d ids ↔ ∃ id ∈ ids, ∃ k < SFS_DB_NINODES, inodes (d.read id) k ≠ 0 ∧ pairAt d id k = p := by
  simp only [scanPairs, List.mem_flatMap, List.mem_map, mem_usedSlots, and_assoc]

/-- `sfs_ls` counts the pairs. -/
theorem length_scanPairs (d : Image) (ids : List Nat) :
    (scanPairs d ids).length = (ids.map fun id => countSlots (d.read id)).sum := by
  rw [scanPairs, List.length_flatMap]
  congr 1
  exact List.map_congr_left fun id _ => List.length_map ..

/-- Directories have different names, and so have the files of one directory. -/
structure Distinct (d : Image) (ids : List Nat) : Prop where
  dirs : ∀ id ∈ ids, ∀ id' ∈ ids, nameOf d id = nameOf d id' → id = id'
  files : ∀ id ∈ ids, ∀ j < SFS_DB_NINODES, ∀ k < SFS_DB_NINODES, inodes (d.read id) j ≠ 0 → inodes (d.read id) k ≠ 0 →
    fileOf d (inodes (d.read id) j) = fileOf d (inodes (d.read id) k) → j = k

theorem Distinct.nodup (h : Distinct d ids) (nodup : ids.Nodup) : (scanPairs d ids).Nodup := by
  rw [scanPairs, List.nodup_flatMap]
  refine ⟨fun id member => ?_, ?_⟩
  · refine List.Nodup.map_on (fun j hj k hk same => ?_) (List.nodup_range.filter _)
    obtain ⟨hj, usedJ⟩ := mem_usedSlots.mp hj
    obtain ⟨hk, usedK⟩ := mem_usedSlots.mp hk
    exact h.files id member j hj k hk usedJ usedK (pairAt_eq_iff.mp same).2
  · refine List.Pairwise.imp_of_mem (fun {a b} ha hb apart => ?_) nodup
    intro p left right
    obtain ⟨j, -, rfl⟩ := List.mem_map.mp left
    obtain ⟨k, -, same⟩ := List.mem_map.mp right
    exact apart (h.dirs a ha b hb (pairAt_eq_iff.mp same).1.symm)

/-! ### One slot -/

/-- Slot `slot` of directory `dir` now holds `v`, and everything else a scan reads is as before. -/
structure SlotChange (ids : List Nat) (dir slot v : Nat) (d d' : Image) : Prop where
  first : firstDir (d'.read 0) = firstDir (d.read 0)
  next : ∀ id ∈ ids, dirNext d' id = dirNext d id
  name : ∀ id ∈ ids, nameOf d' id = nameOf d id
  stored : inodes (d'.read dir) slot = v
  others : ∀ id ∈ ids, ∀ k < SFS_DB_NINODES, id ≠ dir ∨ k ≠ slot → inodes (d'.read id) k = inodes (d.read id) k
  files : ∀ id ∈ ids, ∀ k < SFS_DB_NINODES, inodes (d.read id) k ≠ 0 →
    fileOf d' (inodes (d.read id) k) = fileOf d (inodes (d.read id) k)

variable {dir slot v : Nat}

theorem SlotChange.chain (h : SlotChange ids dir slot v d d') (chain : DirChain d ids) : DirChain d' ids := by
  rw [DirChain, h.first]
  exact Chain.congr chain fun id member => h.next id member

theorem SlotChange.pair (h : SlotChange ids dir slot v d d') {id k : Nat} (member : id ∈ ids) (hk : k < SFS_DB_NINODES)
    (other : id ≠ dir ∨ k ≠ slot) (used : inodes (d.read id) k ≠ 0) :
    inodes (d'.read id) k = inodes (d.read id) k ∧ pairAt d' id k = pairAt d id k := by
  have same := h.others id member k hk other
  exact ⟨same, by rw [pairAt, pairAt, same, h.name id member, h.files id member k hk used]⟩

theorem SlotChange.mem_fill (h : SlotChange ids dir slot v d d') (member : dir ∈ ids) (hs : slot < SFS_DB_NINODES)
    (empty : inodes (d.read dir) slot = 0) (some : v ≠ 0) {p : Pair} :
    p ∈ scanPairs d' ids ↔ p ∈ scanPairs d ids ∨ p = (nameOf d dir, fileOf d' v) := by
  have new : pairAt d' dir slot = (nameOf d dir, fileOf d' v) := by rw [pairAt, h.name dir member, h.stored]
  simp only [mem_scanPairs]
  constructor
  · rintro ⟨id, m, k, hk, used, rfl⟩
    by_cases other : id ≠ dir ∨ k ≠ slot
    · have before : inodes (d.read id) k ≠ 0 := by rwa [← h.others id m k hk other]
      obtain ⟨-, same⟩ := h.pair m hk other before
      exact Or.inl ⟨id, m, k, hk, before, same.symm⟩
    · obtain ⟨rfl, rfl⟩ : id = dir ∧ k = slot := by omega
      exact Or.inr new
  · rintro (⟨id, m, k, hk, used, rfl⟩ | rfl)
    · have other : id ≠ dir ∨ k ≠ slot := by
        by_contra here
        obtain ⟨rfl, rfl⟩ : id = dir ∧ k = slot := by omega
        exact used empty
      obtain ⟨same, pair⟩ := h.pair m hk other used
      exact ⟨id, m, k, hk, by rwa [same], pair⟩
    · exact ⟨dir, member, slot, hs, by rw [h.stored]; exact some, new⟩

theorem SlotChange.mem_clear (h : SlotChange ids dir slot 0 d d') (distinct : Distinct d ids) (member : dir ∈ ids)
    (hs : slot < SFS_DB_NINODES) (used : inodes (d.read dir) slot ≠ 0) {p : Pair} :
    p ∈ scanPairs d' ids ↔ p ∈ scanPairs d ids ∧ p ≠ pairAt d dir slot := by
  simp only [mem_scanPairs]
  constructor
  · rintro ⟨id, m, k, hk, now, rfl⟩
    have other : id ≠ dir ∨ k ≠ slot := by
      by_contra here
      obtain ⟨rfl, rfl⟩ : id = dir ∧ k = slot := by omega
      exact now h.stored
    have before : inodes (d.read id) k ≠ 0 := by rwa [← h.others id m k hk other]
    obtain ⟨-, same⟩ := h.pair m hk other before
    refine ⟨⟨id, m, k, hk, before, same.symm⟩, fun here => ?_⟩
    rw [same] at here
    obtain ⟨dirs, files⟩ := pairAt_eq_iff.mp here
    obtain rfl := distinct.dirs id m dir member dirs
    obtain rfl := distinct.files id m k hk slot hs before used files
    omega
  · rintro ⟨⟨id, m, k, hk, before, rfl⟩, different⟩
    have other : id ≠ dir ∨ k ≠ slot := by
      by_contra here
      obtain ⟨rfl, rfl⟩ : id = dir ∧ k = slot := by omega
      exact different rfl
    obtain ⟨same, pair⟩ := h.pair m hk other before
    exact ⟨id, m, k, hk, by rwa [same], pair⟩

theorem SlotChange.distinct (h : SlotChange ids dir slot v d d') (distinct : Distinct d ids)
    (new : v ≠ 0 → ∀ k < SFS_DB_NINODES, k ≠ slot → inodes (d.read dir) k ≠ 0 →
      fileOf d (inodes (d.read dir) k) ≠ fileOf d' v) : Distinct d' ids := by
  refine ⟨fun id m id' m' same => ?_, fun id m j hj k hk usedJ usedK same => ?_⟩
  · rw [h.name id m, h.name id' m'] at same
    exact distinct.dirs id m id' m' same
  · by_cases otherJ : id ≠ dir ∨ j ≠ slot
    · have eqJ := h.others id m j hj otherJ
      rw [eqJ] at usedJ same
      rw [h.files id m j hj usedJ] at same
      by_cases otherK : id ≠ dir ∨ k ≠ slot
      · have eqK := h.others id m k hk otherK
        rw [eqK] at usedK same
        rw [h.files id m k hk usedK] at same
        exact distinct.files id m j hj k hk usedJ usedK same
      · obtain ⟨rfl, rfl⟩ : id = dir ∧ k = slot := by omega
        rw [h.stored] at usedK same
        exact absurd same (new usedK j hj (by omega) usedJ)
    · obtain ⟨rfl, rfl⟩ : id = dir ∧ j = slot := by omega
      by_cases itself : k = j
      · exact itself.symm
      · have eqK := h.others id m k hk (Or.inr itself)
        rw [eqK] at usedK same
        rw [h.stored] at usedJ same
        rw [h.files id m k hk usedK] at same
        exact absurd same.symm (new usedJ k hk itself usedK)

/-! ### A new directory -/

/-- `b` is a directory without files, and everything else a scan reads is as before. -/
structure DirAdded (ids : List Nat) (b : Nat) (name : List UInt8) (d d' : Image) : Prop where
  named : nameOf d' b = name
  empty : ∀ k < SFS_DB_NINODES, inodes (d'.read b) k = 0
  name : ∀ id ∈ ids, nameOf d' id = nameOf d id
  slots : ∀ id ∈ ids, ∀ k, inodes (d'.read id) k = inodes (d.read id) k
  files : ∀ id ∈ ids, ∀ k < SFS_DB_NINODES, inodes (d.read id) k ≠ 0 →
    fileOf d' (inodes (d.read id) k) = fileOf d (inodes (d.read id) k)

section
variable {b : Nat} {name : List UInt8}

theorem DirAdded.pair (h : DirAdded ids b name d d') {id k : Nat} (member : id ∈ ids) (hk : k < SFS_DB_NINODES)
    (used : inodes (d.read id) k ≠ 0) : pairAt d' id k = pairAt d id k := by
  rw [pairAt, pairAt, h.name id member, h.slots id member, h.files id member k hk used]

theorem DirAdded.mem_scanPairs (h : DirAdded ids b name d d') {p : Pair} :
    p ∈ scanPairs d' (ids ++ [b]) ↔ p ∈ scanPairs d ids := by
  simp only [Sfs.mem_scanPairs]
  constructor
  · rintro ⟨id, m, k, hk, used, rfl⟩
    rcases List.mem_append.mp m with old | new
    · rw [h.slots id old] at used
      exact ⟨id, old, k, hk, used, (h.pair old hk used).symm⟩
    · obtain rfl := List.mem_singleton.mp new
      exact absurd (h.empty k hk) used
  · rintro ⟨id, m, k, hk, used, rfl⟩
    exact ⟨id, List.mem_append_left _ m, k, hk, by rwa [h.slots id m], h.pair m hk used⟩

theorem DirAdded.distinct (h : DirAdded ids b name d d') (distinct : Distinct d ids)
    (new : ∀ id ∈ ids, nameOf d id ≠ name) : Distinct d' (ids ++ [b]) := by
  refine ⟨fun id m id' m' same => ?_, fun id m j hj k hk usedJ usedK same => ?_⟩
  · rcases List.mem_append.mp m with old | last
    · rw [h.name id old] at same
      rcases List.mem_append.mp m' with old' | last'
      · rw [h.name id' old'] at same
        exact distinct.dirs id old id' old' same
      · rw [List.mem_singleton.mp last', h.named] at same
        exact absurd same (new id old)
    · rw [List.mem_singleton.mp last, h.named] at same
      rcases List.mem_append.mp m' with old' | last'
      · rw [h.name id' old'] at same
        exact absurd same.symm (new id' old')
      · rw [List.mem_singleton.mp last, List.mem_singleton.mp last']
  · rcases List.mem_append.mp m with old | last
    · rw [h.slots id old] at usedJ usedK
      rw [h.slots id old, h.slots id old, h.files id old j hj usedJ, h.files id old k hk usedK] at same
      exact distinct.files id old j hj k hk usedJ usedK same
    · rw [List.mem_singleton.mp last] at usedJ
      exact absurd (h.empty j hj) usedJ

end

/-! ### Names of directories -/

theorem getElem?_dirName (dir : Block) {i : Nat} (hi : i < 508) : (dirName dir)[i]? = some (dir.get (4 + i)) := by
  rw [dirName, List.getElem?_drop, Bytes.getElem?_toList _ (by omega)]

/-- A name that fits in `dir_name` is not affected by the slots. -/
theorem nameOf_congr {id : Nat} (same : ∀ i < 124, (d'.read id).get i = (d.read id).get i)
    (short : (nameOf d id).length ≤ 119) : nameOf d' id = nameOf d id := by
  have ends : 0 ∈ dirName (d.read id) := by
    apply ends_of_length_scan_lt
    rw [dirName, List.length_drop, Bytes.length_toList]
    exact Nat.lt_of_le_of_lt short (by decide)
  refine scan_congr ends fun i hi => ?_
  have inside : i ≤ 119 := Nat.le_trans hi short
  rw [getElem?_dirName _ (by omega), getElem?_dirName _ (by omega), same (4 + i) (by omega)]

/-! ### The calls that change a slot -/

variable {own own' : Owners} {s s' : State}

theorem slotChange_of_write {dirBid v : Nat} (h : Healthy own s) (roles : ∀ id ∈ ids, Owners.role own id = some .dir)
    (short : ∀ id ∈ ids, (nameOf s.disk id).length ≤ 119) (member : dirBid ∈ ids)
    (kept : ∀ b, own b ≠ none → b ≠ dirBid → b = 0 ∨ b ∈ ids ∨ Owners.role own b = some .inode →
      d'.read b = s.disk.read b)
    (front : ∀ i < 124, (d'.read dirBid).get i = (s.disk.read dirBid).get i) (stored : inodes (d'.read dirBid) slot = v)
    (others : ∀ k < SFS_DB_NINODES, k ≠ slot → inodes (d'.read dirBid) k = inodes (s.disk.read dirBid) k) :
    SlotChange ids dirBid slot v s.disk d' := by
  have role := roles dirBid member
  have keptDir : ∀ id ∈ ids, id ≠ dirBid → d'.read id = s.disk.read id :=
    fun id m other => kept id (owned_of_role (roles id m)) other (Or.inr (Or.inl m))
  refine ⟨?_, fun id m => ?_, fun id m => nameOf_congr (fun i hi => ?_) (short id m), stored, fun id m k hk other => ?_,
    fun id m k hk used => ?_⟩
  · rw [kept 0 (by simp [h.sound.boot]) (h.sound.role_ne_zero role (by decide)).symm (Or.inl rfl)]
  · rw [dirNext, dirNext]
    by_cases here : id = dirBid
    · rw [here, nextDir, nextDir, Bytes.word, Bytes.word, front _ (by decide), front _ (by decide), front _ (by decide),
        front _ (by decide)]
    · rw [keptDir id m here]
  · by_cases here : id = dirBid
    · rw [here, front i hi]
    · rw [keptDir id m here]
  · by_cases here : id = dirBid
    · subst here
      exact others k hk (other.resolve_left fun no => no rfl)
    · rw [keptDir id m here]
  · have inode := (h.slot_role (roles id m) hk used).2
    have other : inodes (s.disk.read id) k ≠ dirBid := fun same => by
      rw [same, role] at inode
      cases inode
    rw [fileOf, fileOf, kept _ (owned_of_role inode) other (Or.inr (Or.inr inode))]

theorem addDir_dirAdded {name : CString} {b : Nat} {v : Block} {rest : List UInt8} (h : Healthy own s) (walk : Walkable s ids)
    (roles : ∀ id ∈ ids, Owners.role own id = some .dir) (hb : b < 4096) (clear : (s.disk.read 1).bit b = false)
    (empty : ∀ k < SFS_DB_NINODES, inodes v k = 0) (named : dirName v = name.bytes ++ 0 :: rest) :
    DirAdded ids b name.bytes s.disk (s.addDir ids b v).disk := by
  refine ⟨?_, fun k hk => by rw [read_addDir_self, empty k hk], fun id m => ?_, fun id m k => ?_, fun id m k hk used => ?_⟩
  · rw [nameOf, read_addDir_self, named, scan_append_zero name.nonzero]
  · rcases read_addDir_dir (v := v) walk hb clear m with same | linked
    · rw [nameOf, nameOf, same]
    · rw [nameOf, nameOf, linked, dirName_setNextDir]
  · rcases read_addDir_dir (v := v) walk hb clear m with same | linked
    · rw [same]
    · rw [linked, inodes_setNextDir]
  · obtain ⟨owned, inode⟩ := h.slot_role (roles id m) hk used
    have other : inodes (s.disk.read id) k ≠ b := fun same => by
      rw [same, h.sound.free_of_clear clear] at owned
      cases owned
    have noDir : inodes (s.disk.read id) k ∉ ids := fun m' => by
      rw [roles _ m'] at inode
      cases inode
    rw [fileOf, fileOf, read_addDir_other walk hb (h.sound.role_lt inode) (h.sound.role_ne_zero inode (by decide))
      (h.sound.role_ne_one inode) other noDir]

theorem created_slotChange {dirBid inodeBid : Nat} {freeInode : Int} {name : CString} (h : Healthy own s)
    (created : Created dirBid freeInode name own s own' s' inodeBid) (roles : ∀ id ∈ ids, Owners.role own id = some .dir)
    (short : ∀ id ∈ ids, (nameOf s.disk id).length ≤ 119) (member : dirBid ∈ ids)
    (free : FreeSlot (s.disk.read dirBid) SFS_DB_NINODES freeInode) (some : freeInode ≠ -1) :
    SlotChange ids dirBid freeInode.toNat inodeBid s.disk s'.disk := by
  have range := free.range.resolve_left some
  have written := created.dir
  rw [show slotWord freeInode = 31 + freeInode.toNat by unfold slotWord; omega] at written
  have small := created.sound.lt (b := inodeBid) (by simp [created.owned])
  refine slotChange_of_write h roles short member (fun b used other _ => created.grows.kept used other) (fun i hi => ?_) ?_
    fun k hk other => ?_
  · rw [written, Bytes.get_setWord_of_ne _ (by omega)]
  · rw [written]
    exact Bytes.word_setWord_self _ (by unfold SFS_DB_NINODES at range; omega) (by omega)
  · rw [written]
    exact Bytes.word_setWord_of_ne _ (by omega)

theorem withoutSlot_front (dir : Block) {inodeBid i : Nat} (hi : i < 124) :
    (withoutSlot dir inodeBid).get i = dir.get i := by
  rw [withoutSlot, Bytes.get_setWord_of_ne _ (by omega)]
  rcases clearSlot_cases dir inodeBid with ⟨j, -, -, cleared⟩ | ⟨-, same⟩
  · rw [cleared, Bytes.get_setWord_of_ne _ (by omega)]
  · rw [same]

/-- Removing a file clears its slot, provided the slot with the number of the inode block is empty or the
file's own. -/
theorem removed_slotChange {dirBid inodeBid slot : Nat} (h : Healthy own s)
    (roles : ∀ id ∈ ids, Owners.role own id = some .dir) (short : ∀ id ∈ ids, (nameOf s.disk id).length ≤ 119)
    (member : dirBid ∈ ids) (small : inodeBid < SFS_DB_NINODES) (hs : slot < SFS_DB_NINODES)
    (holds : inodes (s.disk.read dirBid) slot = inodeBid) (some : inodeBid ≠ 0)
    (harmless : inodes (s.disk.read dirBid) inodeBid = 0 ∨ inodes (s.disk.read dirBid) inodeBid = inodeBid)
    (written : s'.disk.read dirBid = withoutSlot (s.disk.read dirBid) inodeBid)
    (kept : ∀ b < 4096, b ≠ 1 → b ≠ dirBid → s'.disk.read b = s.disk.read b) :
    SlotChange ids dirBid slot 0 s.disk s'.disk := by
  have role := roles dirBid member
  have unique : ∀ j < SFS_DB_NINODES, inodes (s.disk.read dirBid) j = inodeBid → j = slot := fun j hj same => by
    have first := (h.slot_role role hj (by rw [same]; exact some)).1
    rw [same] at first
    have second := (h.slot_role role hs (by rw [holds]; exact some)).1
    rw [holds, first] at second
    simpa using second
  have cleared : clearSlot (s.disk.read dirBid) inodeBid = (s.disk.read dirBid).setWord (31 + slot) 0 := by
    rcases clearSlot_cases (s.disk.read dirBid) inodeBid with ⟨j, hj, same, cleared⟩ | ⟨absent, -⟩
    · rw [cleared, unique j hj same]
    · exact absurd holds (absent slot hs)
  unfold SFS_DB_NINODES at small hs
  have word : ∀ k, inodes (s'.disk.read dirBid) k =
      if k = inodeBid then 0 else if k = slot then 0 else inodes (s.disk.read dirBid) k := fun k => by
    rw [written, withoutSlot, cleared, inodes, word_setWord (by omega) (by decide), word_setWord (by omega) (by decide)]
    simp only [Nat.add_left_cancel_iff]
    rfl
  refine slotChange_of_write h roles short member (fun b used other _ => ?_) (fun i hi => ?_) ?_ fun k hk other => ?_
  · exact kept b (h.sound.lt used) (h.sound.ne_one used) other
  · rw [written, withoutSlot_front _ hi]
  · rw [word, if_pos rfl, ite_self]
  · rw [word, if_neg other]
    split
    · rename_i here
      rw [here]
      rcases harmless with empty | own
      · exact empty.symm
      · exact absurd (unique inodeBid small own) (by rw [← here]; exact other)
    · rfl

end StorageStack.Sfs
