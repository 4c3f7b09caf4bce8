import StorageStack.Sfs.Mirror

/-!
# Files follow the reference

Opening, removing and writing files, and with them any run of calls and restarts: every answer is the one of the
reference, which has names, bytes and positions but no blocks.
-/

namespace StorageStack.Sfs
open Lib CString

variable {own own' : Owners} {s s' : State} {d : Image} {ids : List Nat} {ref : Reference} {fd : Int} {slot : Fin 32}
  {p : Pair} {cur : Nat}

/-! ### Opening -/

theorem Mirrors.unused_eq (m : Mirrors own ids s ref) : ref.unused = findFd s := by
  rw [Reference.unused, findFd]
  congr 1
  funext i
  rw [Bool.eq_iff_iff, Bool.not_eq_true', m.valid i, decide_eq_true_eq]

theorem Reference.create_files (ref : Reference) (p : Pair) :
    (ref.create p).files = if p ∈ ref.files then ref.files else ref.files ++ [p] := by
  rw [create]
  split <;> rfl

theorem Reference.create_dirs (ref : Reference) (p : Pair) : (ref.create p).dirs = ref.dirs := by
  rw [create]
  split <;> rfl

theorem Reference.create_handles (ref : Reference) (p : Pair) : (ref.create p).handles = ref.handles := by
  rw [create]
  split <;> rfl

theorem Reference.create_content (ref : Reference) {p q : Pair} (other : p ∈ ref.files ∨ q ≠ p) :
    (ref.create p).content q = ref.content q := by
  rw [create]
  split
  · rfl
  · rename_i absent
    exact if_neg (other.resolve_left absent)

theorem Reference.create_empty (ref : Reference) {p : Pair} (new : p ∉ ref.files) : (ref.create p).content p = .empty := by
  rw [create, if_neg new]
  exact if_pos rfl

/-- The names after `sfs_open` are those of the reference. -/
theorem Tracks.opened_named {inode : Block} {dirname name : CString}
    (h : Tracks own ⟨⟨s', (Call.openFile inode dirname name).track (ref.named s).world (slot.val : Nat)⟩,
      (Call.openFile inode dirname name).reference (ref.named s) (slot.val : Nat),
      (Call.openFile inode dirname name).naming (ref.named s) (slot.val : Nat)⟩ ids) :
    Tracks own (((ref.create (dirname.bytes, name.bytes)).setHandle slot
      ⟨true, some ((dirname.bytes, name.bytes), 0)⟩).named s') ids := by
  refine h.congr rfl ?_ fun i live => ?_
  · show (ref.create (dirname.bytes, name.bytes)).files =
      if ((slot.val : Nat) : Int) = -1 ∨ (dirname.bytes, name.bytes) ∈ ref.files then ref.files
        else ref.files ++ [(dirname.bytes, name.bytes)]
    have known : ((slot.val : Nat) : Int) ≠ -1 := by omega
    rw [Reference.create_files]
    simp only [known, false_or]
  · replace live : (if i = slot then (⟨true, some ((dirname.bytes, name.bytes), 0)⟩ : Handle)
      else (ref.create (dirname.bytes, name.bytes)).handles i).file.isSome = true := live
    show Call.track (ref.named s).world (slot.val : Nat) (.openFile inode dirname name) i = true ∧
      ((if i = slot then (⟨true, some ((dirname.bytes, name.bytes), 0)⟩ : Handle)
        else (ref.create (dirname.bytes, name.bytes)).handles i).file.map Prod.fst).getD ([], []) =
      Call.naming (ref.named s) (slot.val : Nat) (.openFile inode dirname name) i
    dsimp only [Call.track, Call.naming]
    rw [fdIndex_val]
    by_cases here : i = slot
    · simp [here]
    · rw [if_neg here, Reference.create_handles] at live ⊢
      simp only [here, false_or, if_false]
      exact ⟨decide_eq_true live, rfl⟩

/-- The file that `sfs_open` creates is empty. -/
theorem sfsOpen_created (inode : Block) {dirname name : CString} {dirBid : Nat} (h : Healthy own s) (free : findFd s = some slot)
    (found : sfsFindDir s dirname = .ok dirBid) (role : Owners.role own dirBid = some .dir)
    (absent : ∀ k < SFS_DB_NINODES, ¬ Holds s.disk (s.disk.read dirBid) name.bytes k) (fits : name.bytes.length ≤ 503)
    (room : 3 ≤ (s.disk.read 1).clearCount) :
    ∃ freeInode own' s' i v, FreeSlot (s.disk.read dirBid) SFS_DB_NINODES freeInode ∧
      Created dirBid freeInode name own s own' s' i ∧ Stands s'.disk i .empty ∧
      sfsOpen s inode dirname name = .ok ((slot.val : Nat), s'.setFd slot ⟨v, i, dirBid, 0, 1⟩) := by
  rcases scanSlots_ok name inode (Nat.zero_add SFS_DB_NINODES)
    (fun k hk used => (h.usable (h.slot_role role hk used).2).ends) (.start _) (fun k hk => absurd hk (Nat.not_lt_zero k))
    with ⟨k, hk, holds, -⟩ | ⟨freeInode, inode', scanned, slots, -⟩
  · exact absurd holds (absent k hk)
  · obtain ⟨own', s', i, v, run, created⟩ := createFile_ok inode' h role slots fits room
    refine ⟨freeInode, own', s', i, v, slots, created, createFile_stands h (owned_of_role role) run, ?_⟩
    rw [sfsOpen_absent free found scanned, run, ok_bind]

/-- What opening sets besides the names: the descriptor of the first unused entry. -/
theorem Mirrors.opened_entry (m : Mirrors own ids s ref) (p : Pair) (slot : Fin 32) {t : State} (table : t.fdtable = s.fdtable)
    {inode : Block} {i dirBid : Nat} :
    (∀ j, (((ref.create p).setHandle slot ⟨true, some (p, 0)⟩).handles j).valid = false ↔
        ((t.setFd slot ⟨inode, i, dirBid, 0, 1⟩).fdtable j).valid = 0) ∧
      ∀ j q cur, (((ref.create p).setHandle slot ⟨true, some (p, 0)⟩).handles j).file = some (q, cur) →
        ((t.setFd slot ⟨inode, i, dirBid, 0, 1⟩).fdtable j).cur = cur := by
  have handle : ∀ j, ((ref.create p).setHandle slot ⟨true, some (p, 0)⟩).handles j =
      if j = slot then ⟨true, some (p, 0)⟩ else ref.handles j := by
    intro j
    rw [← Reference.create_handles ref p]
    rfl
  refine ⟨fun j => ?_, fun j q cur file => ?_⟩
  · rw [handle]
    by_cases here : j = slot
    · rw [if_pos here, here, setFd_self]
      simp
    · rw [if_neg here, setFd_of_ne _ _ here, table]
      exact m.valid j
  · rw [handle] at file
    by_cases here : j = slot
    · rw [if_pos here] at file
      rw [here, setFd_self]
      exact (Prod.mk.inj (Option.some.inj file)).2
    · rw [if_neg here] at file
      rw [setFd_of_ne _ _ here, table]
      exact m.cursor j q cur file

/-- The slots in use of a directory are files of the reference. -/
theorem Mirrors.countSlots_le (m : Mirrors own ids s ref) {id : Nat} {dirname : List UInt8} (member : id ∈ ids)
    (named : nameOf s.disk id = dirname) : countSlots (s.disk.read id) ≤ (ref.files.filter (·.1 = dirname)).length := by
  have nodup : ((usedSlots (s.disk.read id)).map (pairAt s.disk id)).Nodup := by
    refine List.Nodup.map_on (fun j hj k hk same => ?_) (List.nodup_range.filter _)
    obtain ⟨hj, usedJ⟩ := mem_usedSlots.mp hj
    obtain ⟨hk, usedK⟩ := mem_usedSlots.mp hk
    exact m.tracks.distinct.files id member j hj k hk usedJ usedK (pairAt_eq_iff.mp same).2
  have subset : (usedSlots (s.disk.read id)).map (pairAt s.disk id) ⊆ ref.files.filter (·.1 = dirname) := by
    intro q inside
    obtain ⟨k, slot, rfl⟩ := List.mem_map.mp inside
    obtain ⟨hk, used⟩ := mem_usedSlots.mp slot
    have dir : (pairAt s.disk id k).1 = nameOf s.disk id := by rw [pairAt]
    rw [List.mem_filter, decide_eq_true_eq]
    exact ⟨(m.tracks.exact _).mpr (mem_scanPairs.mpr ⟨id, member, k, hk, used, rfl⟩), dir.trans named⟩
  have size := (List.subperm_of_subset nodup subset).length_le
  rwa [List.length_map] at size

theorem open_follows (m : Mirrors own ids s ref) (inode : Block) {dirname name : CString}
    (suits : (Call.openFile inode dirname name).Suits s ref) : Follows s ref (.call (.openFile inode dirname name)) := by
  obtain ⟨dir, fits, room⟩ := suits
  have walk := m.walk
  have healthy := m.healthy
  obtain ⟨id₀, member₀, named₀⟩ := m.mem_dirs.mp dir
  obtain ⟨dirBid, member, found, named⟩ : ∃ dirBid ∈ ids, sfsFindDir s dirname = .ok dirBid ∧
      nameOf s.disk dirBid = dirname.bytes := by
    rcases walk.find_cases dirname with ⟨-, absent⟩ | ⟨front, id, back, rfl, found, named⟩
    · exact absurd named₀ (absent id₀ member₀)
    · exact ⟨id, by simp, found, named⟩
  have role := m.roles dirBid member
  have present := walk.ne_zero member
  cases free : findFd s with
  | none =>
    refine follows_of own ids ?_ (by simp) (sfsOpen_full free) ?_
    · rw [Call.reply, m.unused_eq, free]
      exact m
    · rw [Call.reply, m.unused_eq, free]
  | some slot =>
    have listed := m.tracks.mem_files_iff member named name.bytes
    -- The answer, and the names that the scan finds after the call.
    suffices after : ∃ own' s', sfsOpen s inode dirname name = .ok ((slot.val : Nat), s') ∧ Mirrors own' ids s'
        ((ref.create (dirname.bytes, name.bytes)).setHandle slot ⟨true, some ((dirname.bytes, name.bytes), 0)⟩) by
      obtain ⟨own', s', run, mirrors⟩ := after
      refine follows_of own' ids ?_ (by simp) run ?_
      · rw [Call.reply, m.unused_eq, free]
        exact mirrors
      · rw [Call.reply, m.unused_eq, free]
    have few : (∀ k < SFS_DB_NINODES, ¬ Holds s.disk (s.disk.read dirBid) name.bytes k) →
        countSlots (s.disk.read dirBid) < SFS_DB_NINODES ∧ 3 ≤ (s.disk.read 1).clearCount := by
      intro absent
      have new : (dirname.bytes, name.bytes) ∉ ref.files := fun old => by
        obtain ⟨k, hk, holds⟩ := listed.mp old
        exact absent k hk holds
      rw [m.clearCount_eq]
      exact ⟨Nat.lt_of_le_of_lt (m.countSlots_le member named) (room new).1, (room new).2⟩
    obtain ⟨n', own', ids', step, tracks⟩ :=
      open_tracks m.tracks inode (by rw [show findFd (ref.named s).world.state = _ from free]; simp)
      found present fits few
    by_cases holds : ∃ k < SFS_DB_NINODES, Holds s.disk (s.disk.read dirBid) name.bytes k
    · rcases sfsOpen_ok inode healthy found present fits (fun absent => (few absent).2) with
        ⟨none, -⟩ | ⟨slot', free', ⟨k, hk, here, run⟩ | ⟨absent, -⟩⟩
      · cases none.symm.trans free
      · obtain rfl := Option.some.inj (free'.symm.trans free)
        obtain rfl := Except.ok.inj
          ((Call.nameStep_ok (n := ref.named s) (c := .openFile inode dirname name) run).symm.trans step)
        obtain rfl := Chain.unique tracks.chain walk.chain
        obtain ⟨valid, cursor⟩ := m.opened_entry (dirname.bytes, name.bytes) slot' rfl
        refine ⟨own', _, run, tracks.opened_named, m.tight.of_sound healthy.sound tracks.serves.healthy.sound,
          m.dirs.trans (ref.create_dirs _).symm, fun id inside k hk used => ?_, valid, cursor⟩
        show Stands s.disk _ ((ref.create _).content _)
        rw [ref.create_content (.inl (listed.mpr holds))]
        exact m.contents id inside k hk used
      · obtain ⟨k, hk, here⟩ := holds
        exact absurd here (absent k hk)
    · have absent : ∀ k < SFS_DB_NINODES, ¬ Holds s.disk (s.disk.read dirBid) name.bytes k := fun k hk here => holds ⟨k, hk, here⟩
      obtain ⟨freeInode, own₁, s₁, i, v, slots, created, stands, run⟩ :=
        sfsOpen_created inode healthy free found role absent fits (few absent).2
      have inside := slots.some_of_count (few absent).1
      have change := created_slotChange healthy created m.roles m.tracks.short member slots inside
      obtain rfl := Except.ok.inj ((Call.nameStep_ok (n := ref.named s) (c := .openFile inode dirname name) run).symm.trans step)
      obtain rfl := Chain.unique tracks.chain (change.chain walk.chain)
      obtain ⟨valid, cursor⟩ := m.opened_entry (dirname.bytes, name.bytes) slot created.grows.fdtable
      have new : (dirname.bytes, name.bytes) ∉ ref.files := fun old => holds (listed.mp old)
      refine ⟨own', _, run, tracks.opened_named, ?_, ?_, fun id inside k hk used => ?_, valid, cursor⟩
      · exact (created.tight healthy role inside m.tight).of_sound created.sound tracks.serves.healthy.sound
      · have kept := List.map_congr_left fun id inside => change.name id inside
        exact kept.trans (m.dirs.trans (ref.create_dirs _).symm)
      · show Stands s₁.disk (inodes (s₁.disk.read id) k) ((ref.create _).content (pairAt s₁.disk id k))
        by_cases here : id = dirBid ∧ k = freeInode.toNat
        · obtain ⟨rfl, rfl⟩ := here
          have pair : pairAt s₁.disk id freeInode.toNat = (dirname.bytes, name.bytes) := by
            rw [pairAt, change.name id member, named, change.stored, created.name]
          rw [pair, ref.create_empty new, change.stored]
          exact stands
        · have other : id ≠ dirBid ∨ k ≠ freeInode.toNat := by omega
          have before : inodes (s.disk.read id) k ≠ 0 := by
            rw [← change.others id inside k hk other]
            exact used
          obtain ⟨same, pair⟩ := change.pair inside hk other before
          have old : pairAt s.disk id k ∈ ref.files := (m.tracks.exact _).mpr (mem_scanPairs.mpr ⟨id, inside, k, hk, before, rfl⟩)
          have role' := (healthy.slot_role (m.roles id inside) hk before).2
          rw [same, pair, ref.create_content (.inr fun here => new (by rw [← here]; exact old))]
          refine (m.contents id inside k hk before).congr healthy.sound role' fun b file => ?_
          obtain ⟨kind, owned, noDir, -⟩ := file_role role' file
          refine created.grows.kept (owned_of_role owned) ?_
          rintro rfl
          rw [role] at owned
          exact noDir (Option.some.inj owned).symm

/-! ### Removing -/

theorem Reference.drop_handles (ref : Reference) (p : Pair) (i : Fin 32) : (ref.drop p).handles i =
    if (ref.handles i).file.map Prod.fst = some p then { ref.handles i with file := none } else ref.handles i := rfl

/-- The names after `sfs_remove` are those of the reference. -/
theorem Mirrors.dropped_named (m : Mirrors own ids s ref) (index : fdIndex fd = .ok slot)
    (file : (ref.handles slot).file = some (p, cur))
    (h : Tracks own' ⟨⟨s', (Call.remove fd).track (ref.named s).world 0⟩, (Call.remove fd).reference (ref.named s) 0,
      (Call.remove fd).naming (ref.named s) 0⟩ ids) : Tracks own' ((ref.drop p).named s') ids := by
  have holding := m.holding file
  refine h.congr rfl ?_ fun i live => ?_
  · show ref.files.erase p = Call.reference (ref.named s) 0 (.remove fd)
    rw [Call.reference, index]
    dsimp only
    rw [holding.file]
    rfl
  · replace live : ((ref.drop p).handles i).file.isSome = true := live
    show Call.track (ref.named s).world 0 (.remove fd) i = true ∧
      (((ref.drop p).handles i).file.map Prod.fst).getD ([], []) = (ref.named s).file i
    rw [Reference.drop_handles] at live ⊢
    by_cases gone : (ref.handles i).file.map Prod.fst = some p
    · rw [if_pos gone] at live
      cases live
    · rw [if_neg gone] at live ⊢
      obtain ⟨⟨q, cur'⟩, here⟩ := Option.isSome_iff_exists.mp live
      have other := m.holding here
      refine ⟨?_, rfl⟩
      rw [Call.track, index]
      refine decide_eq_true ⟨live, fun same => gone ?_⟩
      -- One inode is one slot, and that has one pair of names.
      obtain ⟨member, k, hk, holds, pair⟩ := holding.opened
      obtain ⟨member', k', hk', holds', pair'⟩ := other.opened
      have used := m.tracks.inode_ne_zero holding.live
      have used' := m.tracks.inode_ne_zero other.live
      have pairs := (inodes_eq_iff m.healthy.sound m.roles m.tracks.distinct member' hk' (by rw [holds']; exact used') member hk
        (by rw [holds]; exact used)).mp (holds'.trans (same.trans holds.symm))
      rw [here, Option.map_some, ← pair', pairs, pair]

theorem remove_follows (m : Mirrors own ids s ref) (suits : (Call.remove fd).Suits s ref) :
    Follows s ref (.call (.remove fd)) := by
  obtain ⟨slot, p, cur, opened, small, spared⟩ := suits
  obtain ⟨index, file⟩ := Reference.opened_eq_some opened
  have holding := m.holding file
  have live : (ref.named s).world.Live fd slot := ⟨index, holding.live⟩
  obtain ⟨member, k, hk, holds, pair⟩ := holding.opened
  have inode := m.tracks.inode_ne_zero holding.live
  obtain ⟨s', run, -, table, written, kept, -⟩ := sfsRemove_ok m.healthy index rfl (m.tracks.serves.live slot holding.live) small
  have change := removed_slotChange m.healthy m.roles m.tracks.short member small hk holds inode spared written kept
  obtain ⟨n', own', ids', step, tracks⟩ := remove_tracks m.tracks live small spared
  obtain rfl := Except.ok.inj ((Call.nameStep_ok (n := ref.named s) (c := .remove fd) run).symm.trans step)
  obtain rfl := Chain.unique (change.chain m.walk.chain) tracks.chain
  have named := m.dropped_named index file tracks
  have handles : ∀ i, ((ref.drop p).handles i).valid = (ref.handles i).valid ∧
      ∀ q cur', ((ref.drop p).handles i).file = some (q, cur') → (ref.handles i).file = some (q, cur') := by
    intro i
    rw [Reference.drop_handles]
    split
    · exact ⟨rfl, fun q cur' gone => by cases gone⟩
    · exact ⟨rfl, fun q cur' same => same⟩
  have after : Mirrors own' ids s' (ref.drop p) := by
    refine ⟨named, ?_, ?_, ?_, fun i => ?_, fun i q cur' still => ?_⟩
    · refine m.tight_after (c := .remove fd) run ⟨slot, live, small⟩ (by simp) (fun slot' index' => ?_)
        tracks.serves.healthy.sound
      obtain rfl := Except.ok.inj (index.symm.trans index')
      exact spared
    · have names := List.map_congr_left fun id inside => change.name id inside
      exact names.trans m.dirs
    · refine m.contents.congr m.healthy.sound m.roles (fun id inside j hj used => ?_) fun i b role inside => ?_
      · have other : id ≠ (s.fdtable slot).dirBid ∨ j ≠ k := by
          by_contra here
          obtain ⟨rfl, rfl⟩ : id = (s.fdtable slot).dirBid ∧ j = k := by omega
          exact used change.stored
        have same := change.others id inside j hj other
        refine ⟨inside, same, ?_⟩
        rw [(change.pair inside hj other (by rw [← same]; exact used)).2]
        rfl
      · obtain ⟨kind, owned, noDir, -⟩ := file_role role inside
        refine kept b (m.healthy.sound.role_lt owned) (m.healthy.sound.role_ne_one owned) ?_
        rintro rfl
        rw [m.roles _ member] at owned
        exact noDir (Option.some.inj owned).symm
    · rw [(handles i).1, table]
      exact m.valid i
    · rw [table]
      exact m.cursor i q cur' ((handles i).2 q cur' still)
  refine follows_of own' ids ?_ (by simp) run ?_
  · rw [Call.reply, opened]
    exact after
  · rw [Call.reply, opened]

/-! ### Writing -/

/-- Directories and names are as before, and each descriptor keeps its file. -/
theorem Tracks.same {n : Named} (h : Tracks own n ids) (serves : Serves own' ⟨s', n.world.live⟩)
    (table : ∀ i, SameFile (n.world.state.fdtable i) (s'.fdtable i)) (super : s'.disk.read 0 = n.disk.read 0)
    (dirs : ∀ id ∈ ids, s'.disk.read id = n.disk.read id)
    (files : ∀ id ∈ ids, ∀ k < SFS_DB_NINODES, inodes (n.disk.read id) k ≠ 0 →
      fileOf s'.disk (inodes (n.disk.read id) k) = fileOf n.disk (inodes (n.disk.read id) k)) :
    Tracks own' ⟨⟨s', n.world.live⟩, n.files, n.file⟩ ids := by
  have names : ∀ id ∈ ids, nameOf s'.disk id = nameOf n.disk id := fun id member => by rw [nameOf, nameOf, dirs id member]
  have pairs : ∀ id ∈ ids, ∀ k < SFS_DB_NINODES, inodes (n.disk.read id) k ≠ 0 → pairAt s'.disk id k = pairAt n.disk id k := by
    intro id member k hk used
    rw [pairAt, pairAt, names id member, dirs id member, files id member k hk used]
  have scans : scanPairs s'.disk ids = scanPairs n.disk ids := by
    rw [scanPairs, scanPairs]
    refine List.flatMap_congr fun id member => ?_
    rw [dirs id member]
    refine List.map_congr_left fun k slot => ?_
    obtain ⟨hk, used⟩ := mem_usedSlots.mp slot
    exact pairs id member k hk used
  refine ⟨serves, ?_, fun id member => ?_, ⟨fun id m id' m' same => ?_, fun id m j hj k hk usedJ usedK same => ?_⟩, fun p => ?_,
    h.nodup, fun i live => ?_⟩
  · show Chain (dirNext s'.disk) (firstDir (s'.disk.read 0)) ids
    rw [super]
    exact Chain.congr h.chain fun id member => by rw [dirNext, dirNext, dirs id member]
  · show (nameOf s'.disk id).length ≤ 119
    rw [names id member]
    exact h.short id member
  · replace same : nameOf s'.disk id = nameOf s'.disk id' := same
    rw [names id m, names id' m'] at same
    exact h.distinct.dirs id m id' m' same
  · replace same : fileOf s'.disk (inodes (s'.disk.read id) j) = fileOf s'.disk (inodes (s'.disk.read id) k) := same
    replace usedJ : inodes (s'.disk.read id) j ≠ 0 := usedJ
    replace usedK : inodes (s'.disk.read id) k ≠ 0 := usedK
    rw [dirs id m] at usedJ usedK same
    rw [files id m j hj usedJ, files id m k hk usedK] at same
    exact h.distinct.files id m j hj k hk usedJ usedK same
  · show p ∈ n.files ↔ p ∈ scanPairs s'.disk ids
    rw [scans]
    exact h.exact p
  · obtain ⟨member, k, hk, holds, pair⟩ := h.opened i live
    have used : inodes (n.disk.read (n.world.state.fdtable i).dirBid) k ≠ 0 := by
      rw [holds]
      exact h.inode_ne_zero live
    obtain ⟨inode, dir, -⟩ := table i
    show Opened s'.disk ids (s'.fdtable i) (n.file i)
    refine ⟨by rw [dir]; exact member, k, hk, ?_, ?_⟩
    · rw [dir, inode, dirs _ member, holds]
    · rw [dir, pairs _ member k hk used, pair]

/-- What belongs to one file is in no other. -/
theorem file_apart {i j b : Nat} (role : Owners.role own i = some .inode) (role' : Owners.role own j = some .inode)
    (file : b = i ∨ InFile own i b) (file' : b = j ∨ InFile own j b) : i = j := by
  have kinds : ∀ {i j}, Owners.role own j = some .inode → ¬ InFile own i j := fun role inside => by
    rcases inside.role with other | other
    · rw [role] at other
      cases other
    · rw [role] at other
      cases other
  rcases file with rfl | inside
  · rcases file' with same | inside'
    · exact same
    · exact absurd inside' (kinds role)
  · rcases file' with rfl | inside'
    · exact absurd inside (kinds role')
    · exact inside.unique inside'

/-- One file has new contents. -/
theorem Mirrors.wrote (m : Mirrors own ids s ref) (h : Holding own ids s ref slot p cur) {file' : FileRef}
    (grows : FileGrows (s.fdtable slot).inodeBid own s own' s') (tight : Tight own' s'.disk)
    (stands : Stands s'.disk (s.fdtable slot).inodeBid file') :
    Mirrors own' ids { s' with fdtable := s.fdtable } (ref.setContent p file') := by
  have sound := m.healthy.sound
  have kept : ∀ {b kind}, Owners.role own b = some kind → kind = .dir ∨ kind = .super → s'.disk.read b = s.disk.read b := by
    intro b kind owned which
    refine grows.grows.kept (owned_of_role owned) fun file => ?_
    obtain ⟨kind', owned', noDir, noSuper⟩ := file_role h.role file
    obtain rfl := Option.some.inj (owned.symm.trans owned')
    exact which.elim noDir noSuper
  have dirs : ∀ id ∈ ids, s'.disk.read id = s.disk.read id := fun id member => kept (m.roles id member) (.inl rfl)
  have inode : ∀ id ∈ ids, ∀ k < SFS_DB_NINODES, inodes (s.disk.read id) k ≠ 0 →
      Owners.role own (inodes (s.disk.read id) k) = some .inode := fun id member k hk used =>
    (m.healthy.slot_role (m.roles id member) hk used).2
  have files : ∀ id ∈ ids, ∀ k < SFS_DB_NINODES, inodes (s.disk.read id) k ≠ 0 →
      fileOf s'.disk (inodes (s.disk.read id) k) = fileOf s.disk (inodes (s.disk.read id) k) := by
    intro id member k hk used
    have role := inode id member k hk used
    rw [fileOf, fileOf]
    by_cases here : inodes (s.disk.read id) k = (s.fdtable slot).inodeBid
    · rw [here, grows.name]
    · have same : s'.disk.read (inodes (s.disk.read id) k) = s.disk.read (inodes (s.disk.read id) k) :=
        grows.grows.kept (owned_of_role role) fun file => here (file_apart role h.role (.inl rfl) file)
      rw [same]
  have healthy : Healthy own' { s' with fdtable := s.fdtable } := (grows.healthy m.healthy h.role).congr rfl rfl rfl
  have serves := m.tracks.serves.next healthy (fun owned _ => grows.grows.grow owned) fun i => ⟨rfl, rfl, rfl⟩
  have tracks := m.tracks.same serves (fun i => ⟨rfl, rfl, rfl⟩) (kept (role_of_own sound.boot) (.inr rfl)) dirs files
  have names : ids.map (nameOf s'.disk) = ids.map (nameOf s.disk) :=
    List.map_congr_left fun id member => by rw [nameOf, nameOf, dirs id member]
  refine ⟨tracks, tight, names.trans m.dirs, fun id member k hk used => ?_, m.valid, m.cursor⟩
  replace used : inodes (s'.disk.read id) k ≠ 0 := used
  show Stands s'.disk (inodes (s'.disk.read id) k) ((ref.setContent p file').content (pairAt s'.disk id k))
  rw [dirs id member] at used ⊢
  have pair : pairAt s'.disk id k = pairAt s.disk id k := by
    rw [pairAt, pairAt, nameOf, nameOf, dirs id member, files id member k hk used]
  obtain ⟨member', k', hk', holds, named⟩ := h.opened
  have same := inodes_eq_iff sound m.roles m.tracks.distinct member hk used member' hk'
    (by rw [holds]; exact m.tracks.inode_ne_zero h.live)
  rw [holds, named] at same
  rw [pair]
  by_cases here : pairAt s.disk id k = p
  · rw [same.mpr here, here, Reference.setContent]
    dsimp only
    rw [if_pos rfl]
    exact stands
  · rw [Reference.setContent]
    dsimp only
    rw [if_neg here]
    refine (m.contents id member k hk used).congr sound (inode id member k hk used) fun b file => ?_
    obtain ⟨kind, owned, -⟩ := file_role (inode id member k hk used) file
    refine grows.grows.kept (owned_of_role owned) fun file' => here (same.mp ?_)
    exact file_apart (inode id member k hk used) h.role file file'

theorem write_follows (m : Mirrors own ids s ref) {buf : List UInt8} {length : Int}
    (suits : (Call.write none fd buf length).Suits s ref) : Follows s ref (.call (.write none fd buf length)) := by
  obtain ⟨slot, p, cur, opened, nonneg, source, range, free⟩ := suits
  obtain ⟨index, file⟩ := Reference.opened_eq_some opened
  have holding := m.holding file
  have healthy := m.healthy
  have cursor := holding.cursor
  obtain ⟨n, rfl⟩ := Int.eq_ofNat_of_zero_le nonneg
  rw [Int.toNat_natCast, ← cursor] at range free
  rw [← m.clearCount_eq] at free
  obtain ⟨fs, s', room, run, stands⟩ := write_stands healthy index rfl holding.role holding.stands range
    (Int.ofNat_le.mp source) free
  have array : 0 < numBids (n : Int) := by
    have bids := range.ids
    omega
  obtain ⟨own', s₁, run', grows, fds, moved, ext, -⟩ := sfsWriteWith_ok buf index rfl healthy.sound healthy.coherent.loaded
    holding.role (healthy.usable holding.role).framed room source
  rw [sfsWrite, if_pos array] at run
  obtain ⟨-, rfl⟩ := Prod.mk.inj (Except.ok.inj (run.symm.trans run'))
  have keeps : KeepsFrames s (s.fdtable slot) n := .inl (missingFrames_small (by have := range.2; omega))
  have tight := m.tight.extend healthy.sound (fun b hb => (grows.grows.bits b hb).mp) (ext keeps) (owned_of_role holding.role)
  rw [cursor] at stands
  have wrote := m.wrote holding grows tight stands
  -- The rest of the state is the descriptor's new position.
  have state : ({ s' with fdtable := s.fdtable } : State).setFd slot (s'.fdtable slot) = s' := by
    have table : (({ s' with fdtable := s.fdtable } : State).setFd slot (s'.fdtable slot)).fdtable = s'.fdtable := by
      funext i
      by_cases here : i = slot
      · rw [here, setFd_self]
      · rw [setFd_of_ne _ _ here]
        exact (fds.others i here).symm
    exact congrArg (fun table => ({ s' with fdtable := table } : State)) table
  obtain ⟨inode, dir, valid⟩ := fds.files slot
  have after : Mirrors own' ids (({ s' with fdtable := s.fdtable } : State).setFd slot (s'.fdtable slot))
      ((ref.setContent p ((ref.content p).write cur n buf)).move slot p (cur + n)) := by
    refine wrote.setFd ⟨inode.symm, dir.symm⟩ ?_ ?_ fun q cur' same => ?_
    · show _ = (ref.handles slot).file.map Prod.fst
      rw [file]
      rfl
    · rw [valid]
      exact m.valid slot
    · obtain ⟨-, rfl⟩ := Prod.mk.inj (Option.some.inj same)
      rw [moved, cursor, Int.toNat_natCast]
  rw [state] at after
  refine follows_of own' ids ?_ (by simp) (show (Call.write none fd buf n).run s = _ by
    rw [Call.run, sfsWrite, if_pos array, run']) ?_
  · rw [Call.reply, opened]
    exact after
  · rw [Call.reply, opened]
    rfl

/-! ### Runs -/

theorem event_follows (m : Mirrors own ids s ref) {e : Event} (suits : e.Suits (s, ref)) : Follows s ref e := by
  cases e with
  | restart => exact restart_follows m
  | call c =>
    cases c with
    | mkfs => exact suits.elim
    | printInfo => exact printInfo_follows m
    | mkdir temp dirname => exact mkdir_follows m temp suits
    | rmdir dirname => exact rmdir_follows m suits
    | lsdir => exact lsdir_follows m
    | ls => exact ls_follows m
    | openFile inode dirname name => exact open_follows m inode suits
    | close fd => exact close_follows m suits
    | remove fd => exact remove_follows m suits
    | write cap fd buf length =>
      cases cap with
      | none => exact write_follows m suits
      | some cap => exact suits.elim
    | read fd buf length => exact read_follows m suits
    | seek fd relative loc => exact seek_follows m suits
    | eof fd => exact eof_follows m suits

theorem mirrors_start (s : State) : Mirrors bare [] (start s) .start :=
  ⟨tracks_start s, tight_start s, rfl, fun id member => absurd member List.not_mem_nil, fun i => ⟨fun _ => rfl, fun _ => rfl⟩,
    fun i p cur file => by cases file⟩

/-- Every run of calls and restarts on a formatted image that suits the reference gives the answers of the reference,
and leaves as many free blocks as it says. -/
theorem events_follow (s : State) (events : List Event)
    (suits : Meets (alongside Event.observe Event.reply) Event.Suits events (start s, .start)) :
    answers Event.observe events (start s) = .ok (predict Event.reply events .start) ∧
      ∃ s' ref, runAll (alongside Event.observe Event.reply) events (start s, .start) = .ok (s', ref) ∧
        (s'.disk.read 1).clearCount = ref.free := by
  obtain ⟨answers, s', ref, run, own, ids, m⟩ := answers_predicted (fun s ref => ∃ own ids, Mirrors own ids s ref)
    (fun e s ref ⟨own, ids, m⟩ here => by
      obtain ⟨own', ids', s', run, m'⟩ := event_follows m here
      exact ⟨s', run, own', ids', m'⟩) ⟨bare, [], mirrors_start s⟩ suits
  exact ⟨answers, s', ref, run, m.clearCount_eq⟩

/-- A file of two blocks is written, found again by a new process, read from its second byte on, and removed. -/
def keepAndRemove : List Event :=
  [.call (.mkdir .zero slash), .call (.openFile .zero slash slash), .call (.write none 0 (List.replicate 600 97) 600), .restart,
    .call (.openFile .zero slash slash), .call (.seek 0 1 0), .call (.read 0 (List.replicate 512 0) 512), .call (.remove 0),
    .call .ls]

theorem keepAndRemove_follows :
    answers Event.observe keepAndRemove (start .initial) = .ok (predict Event.reply keepAndRemove .start) ∧
      ∃ s' ref, runAll (alongside Event.observe Event.reply) keepAndRemove (start .initial, .start) = .ok (s', ref) ∧
        (s'.disk.read 1).clearCount = ref.free :=
  events_follow .initial keepAndRemove (by decide +kernel)

end StorageStack.Sfs
