import StorageStack.Sfs.Calls
import StorageStack.Sfs.Scan

/-!
# The namespace of files

The reference is a list of pairs of names: opening a pair that is not in it adds it, and removing a
descriptor's file deletes the pair the descriptor was opened with. Runs that keep clear of `sfs_remove`'s
second store find exactly these pairs when they scan the directories.
-/

namespace StorageStack.Sfs
open Lib CString

/-- A world, the pairs of the reference, and the pair each descriptor was opened with. -/
structure Named where
  world : World
  files : List Pair
  file : Fin 32 → Pair

abbrev Named.disk (n : Named) : Image := n.world.state.disk

/-- The reference after a call that returned `r`. -/
def Call.reference (n : Named) (r : Int) : Call → List Pair
  | openFile _ dirname name =>
    if r = -1 ∨ (dirname.bytes, name.bytes) ∈ n.files then n.files else n.files ++ [(dirname.bytes, name.bytes)]
  | remove fd =>
    match fdIndex fd with
    | .ok slot => n.files.erase (n.file slot)
    | .error _ => n.files
  | _ => n.files

/-- What the descriptors were opened with. -/
def Call.naming (n : Named) (r : Int) : Call → Fin 32 → Pair
  | openFile _ dirname name =>
    match fdIndex r with
    | .ok fd => fun i => if i = fd then (dirname.bytes, name.bytes) else n.file i
    | .error _ => n.file
  | _ => n.file

def Call.nameStep (c : Call) (n : Named) : Outcome Named := do
  let (r, s) ← c.run n.world.state
  .ok ⟨⟨s, c.track n.world r⟩, c.reference n r, c.naming n r⟩

def Named.start (s : State) : Named := ⟨World.start s, [], fun _ => ([], [])⟩

/-- The scan finds the reference, every pair once, and `sfs_ls` returns their number. -/
def Named.Agrees (n : Named) : Prop :=
  ∃ ids, DirChain n.disk ids ∧ (∀ p, p ∈ n.files ↔ p ∈ scanPairs n.disk ids) ∧ n.files.Nodup ∧
    (scanPairs n.disk ids).Nodup ∧ sfsLs n.world.state = .ok ((n.files.length : Nat), n.world.state)

/-- Calls on existing directories and live descriptors that have the room they need. A file that is removed
has its inode in a block whose number, as a slot, is empty or the file's own. -/
def Call.Tidy (n : Named) : Call → Prop
  | mkdir _ dirname => dirname.bytes.length ≤ 119 ∧
      (sfsFindDir n.world.state dirname = .ok 0 → 0 < (n.disk.read 1).clearCount)
  | openFile _ dirname name => findFd n.world.state ≠ none ∧ ∃ dirBid, sfsFindDir n.world.state dirname = .ok dirBid ∧
      dirBid ≠ 0 ∧ name.bytes.length ≤ 503 ∧
      ((∀ k < SFS_DB_NINODES, ¬ Holds n.disk (n.disk.read dirBid) name.bytes k) →
        countSlots (n.disk.read dirBid) < SFS_DB_NINODES ∧ 3 ≤ (n.disk.read 1).clearCount)
  | close fd => Indexed fd
  | remove fd => ∃ slot, n.world.Live fd slot ∧ (n.world.state.fdtable slot).inodeBid < SFS_DB_NINODES ∧
      (inodes (n.disk.read (n.world.state.fdtable slot).dirBid) (n.world.state.fdtable slot).inodeBid = 0 ∨
        inodes (n.disk.read (n.world.state.fdtable slot).dirBid) (n.world.state.fdtable slot).inodeBid =
          (n.world.state.fdtable slot).inodeBid)
  | _ => False

/-! ### The invariant -/

/-- The descriptor's file is in a slot of a directory and has the names of the pair. -/
structure Opened (d : Image) (ids : List Nat) (entry : Fd) (p : Pair) : Prop where
  member : entry.dirBid ∈ ids
  slot : ∃ k < SFS_DB_NINODES, inodes (d.read entry.dirBid) k = entry.inodeBid ∧ pairAt d entry.dirBid k = p

structure Tracks (own : Owners) (n : Named) (ids : List Nat) : Prop where
  serves : Serves own n.world
  chain : DirChain n.disk ids
  short : ∀ id ∈ ids, (nameOf n.disk id).length ≤ 119
  distinct : Distinct n.disk ids
  exact : ∀ p, p ∈ n.files ↔ p ∈ scanPairs n.disk ids
  nodup : n.files.Nodup
  opened : ∀ i, n.world.live i = true → Opened n.disk ids (n.world.state.fdtable i) (n.file i)

variable {own own' : Owners} {n : Named} {ids : List Nat} {s' : State}

theorem Tracks.walkable (h : Tracks own n ids) :
    Walkable n.world.state ids ∧ ∀ id ∈ ids, Owners.role own id = some .dir := by
  obtain ⟨ids', walk, roles⟩ := h.serves.healthy.walkable
  obtain rfl := Chain.unique walk.chain h.chain
  exact ⟨walk, roles⟩

theorem Tracks.agrees (h : Tracks own n ids) : n.Agrees := by
  obtain ⟨walk, -⟩ := h.walkable
  have scanned := h.distinct.nodup (Chain.nodup h.chain)
  have same := ((List.perm_ext_iff_of_nodup h.nodup scanned).mpr h.exact).length_eq
  refine ⟨ids, h.chain, h.exact, h.nodup, scanned, ?_⟩
  rw [same, length_scanPairs]
  exact sfsLs_ok walk

theorem tracks_start (s : State) : Tracks bare (Named.start s) [] :=
  ⟨serves_start s, (walkable_start s).chain, by simp, ⟨by simp, by simp⟩, fun p => by simp [Named.start, scanPairs],
    List.nodup_nil, fun i live => by cases live⟩

theorem Call.nameStep_ok {c : Call} {r : Int} (run : c.run n.world.state = .ok (r, s')) :
    c.nameStep n = .ok ⟨⟨s', c.track n.world r⟩, c.reference n r, c.naming n r⟩ := by
  rw [nameStep, run]
  rfl

/-! ### `sfs_mkdir` -/

theorem mkdir_tracks (h : Tracks own n ids) (temp : Block) {dirname : CString} (fits : dirname.bytes.length ≤ 119)
    (free : sfsFindDir n.world.state dirname = .ok 0 → 0 < (n.disk.read 1).clearCount) :
    ∃ n' own' ids', (Call.mkdir temp dirname).nameStep n = .ok n' ∧ Tracks own' n' ids' := by
  obtain ⟨walk, roles⟩ := h.walkable
  by_cases present : ∃ id ∈ ids, nameOf n.disk id = dirname.bytes
  · exact ⟨_, own, ids, Call.nameStep_ok (sfsMkdir_found walk present), h.serves, h.chain, h.short, h.distinct, h.exact,
      h.nodup, h.opened⟩
  have absent : ∀ id ∈ ids, nameOf n.disk id ≠ dirname.bytes := fun id m same => present ⟨id, m, same⟩
  have missing : sfsFindDir n.world.state dirname = .ok 0 := by
    rcases walk.find_cases dirname with ⟨none, _⟩ | ⟨front, id, back, rfl, _, named⟩
    · exact none
    · exact absurd named (absent id (by simp))
  obtain ⟨b, v, hb, clear, -, filled, run⟩ := sfsMkdir_new temp walk absent (free missing) (by omega)
  obtain ⟨v', filled', last, empty, holds⟩ := @newDir_ok dirname temp (by omega)
  obtain rfl := Except.ok.inj (filled.symm.trans filled')
  obtain ⟨rest, named⟩ := holds fits
  have healthy := h.serves.healthy.addDir walk roles hb clear last empty
  have chain := (addDir_walkable walk hb clear (walk.length_lt hb clear) (by rw [named]; simp) last).chain
  have added := addDir_dirAdded h.serves.healthy walk roles hb clear empty named
  have kept : FilesKept own (Function.update own b (some (linkTo ids))) := fun {c l} owned _ => by
    rw [Function.update_of_ne, owned]
    rintro rfl
    rw [h.serves.healthy.sound.free_of_clear clear] at owned
    cases owned
  refine ⟨_, _, ids ++ [b], Call.nameStep_ok run, h.serves.next healthy kept (sameFile_of_eq addDir_fdtable), chain,
    fun id m => ?_, added.distinct h.distinct absent, fun p => (h.exact p).trans added.mem_scanPairs.symm, h.nodup,
    fun i live => ?_⟩
  · rcases List.mem_append.mp m with old | new
    · exact (added.name id old).symm ▸ h.short id old
    · rw [List.mem_singleton.mp new]
      exact added.named.symm ▸ fits
  · obtain ⟨member, k, hk, holds, pair⟩ := h.opened i live
    have named' := ((h.serves.live i live).role)
    have some : (n.world.state.fdtable i).inodeBid ≠ 0 := h.serves.healthy.sound.role_ne_zero named' (by decide)
    dsimp only [Named.disk]
    rw [addDir_fdtable]
    exact ⟨List.mem_append_left _ member, k, hk, (added.slots _ member k).trans holds,
      (added.pair member hk (by rw [holds]; exact some)).trans pair⟩

/-! ### `sfs_open` -/

theorem Opened.change {d d' : Image} {dir slot v : Nat} {entry : Fd} {p : Pair} (h : Opened d ids entry p)
    (change : SlotChange ids dir slot v d d') (some : entry.inodeBid ≠ 0)
    (other : inodes (d.read dir) slot ≠ entry.inodeBid) : Opened d' ids entry p := by
  obtain ⟨member, k, hk, holds, pair⟩ := h
  have apart : entry.dirBid ≠ dir ∨ k ≠ slot := by
    by_contra here
    obtain ⟨rfl, rfl⟩ : entry.dirBid = dir ∧ k = slot := by omega
    exact other holds
  obtain ⟨same, samePair⟩ := change.pair member hk apart (by rw [holds]; exact some)
  exact ⟨member, k, hk, same.trans holds, samePair.trans pair⟩

theorem Tracks.inode_ne_zero (h : Tracks own n ids) {i : Fin 32} (live : n.world.live i = true) :
    (n.world.state.fdtable i).inodeBid ≠ 0 :=
  h.serves.healthy.sound.role_ne_zero (h.serves.live i live).role (by decide)

/-- A directory that is not full has a free slot for a new file. -/
theorem FreeSlot.some_of_count {dir : Block} {freeInode : Int} (free : FreeSlot dir SFS_DB_NINODES freeInode)
    (few : countSlots dir < SFS_DB_NINODES) : freeInode ≠ -1 := by
  intro none
  have full : (List.range SFS_DB_NINODES).filter (inodes dir · ≠ 0) = List.range SFS_DB_NINODES :=
    List.filter_eq_self.mpr fun k hk => decide_eq_true (free.none none k (List.mem_range.mp hk))
  rw [countSlots, full, List.length_range] at few
  exact Nat.lt_irrefl _ few

theorem Tracks.mem_files_iff (h : Tracks own n ids) {dirBid : Nat} {dirname : List UInt8} (member : dirBid ∈ ids)
    (named : nameOf n.disk dirBid = dirname) (name : List UInt8) :
    (dirname, name) ∈ n.files ↔ ∃ k < SFS_DB_NINODES, Holds n.disk (n.disk.read dirBid) name k := by
  rw [h.exact, mem_scanPairs]
  constructor
  · rintro ⟨id, m, k, hk, used, pair⟩
    obtain ⟨sameDir, sameFile⟩ := Prod.mk.inj (show (_, _) = (dirname, name) from pair)
    obtain rfl := h.distinct.dirs id m dirBid member (sameDir.trans named.symm)
    exact ⟨k, hk, used, sameFile⟩
  · rintro ⟨k, hk, used, file⟩
    exact ⟨dirBid, member, k, hk, used, by rw [pairAt, named, file]⟩

theorem open_tracks (h : Tracks own n ids) (inode : Block) {dirname name : CString} {dirBid : Nat}
    (table : findFd n.world.state ≠ none) (found : sfsFindDir n.world.state dirname = .ok dirBid) (present : dirBid ≠ 0)
    (fits : name.bytes.length ≤ 503)
    (room : (∀ k < SFS_DB_NINODES, ¬ Holds n.disk (n.disk.read dirBid) name.bytes k) →
      countSlots (n.disk.read dirBid) < SFS_DB_NINODES ∧ 3 ≤ (n.disk.read 1).clearCount) :
    ∃ n' own' ids', (Call.openFile inode dirname name).nameStep n = .ok n' ∧ Tracks own' n' ids' := by
  obtain ⟨walk, roles⟩ := h.walkable
  have healthy := h.serves.healthy
  obtain ⟨role, named⟩ := healthy.findDir found present
  have member : dirBid ∈ ids := by
    rcases walk.find_cases dirname with ⟨none, _⟩ | ⟨front, id, back, rfl, found', _⟩
    · rw [none] at found
      exact absurd (Except.ok.inj found).symm present
    · rw [Except.ok.inj (found.symm.trans found')]
      simp
  have listed := h.mem_files_iff member named name.bytes
  have range : 2 ≤ dirBid ∧ dirBid < 4096 := ⟨by
    have := walk.ne_one member
    omega, walk.small dirBid member⟩
  have isFd : ∀ fd : Fin 32, ((fd.val : Nat) : Int) ≠ -1 := fun fd => by omega
  rcases sfsOpen_ok inode healthy found present fits (fun absent => (room absent).2) with
    ⟨none, -⟩ | ⟨fd, -, ⟨k, hk, holds, run⟩ | ⟨absent, freeInode, own', s', i, v, free, created, run⟩⟩
  · exact absurd none table
  · -- The file is there: the reference has its pair already.
    obtain ⟨owned, inodeRole⟩ := healthy.slot_role role hk holds.1
    refine ⟨_, own, ids, Call.nameStep_ok run, ?_⟩
    dsimp only [Call.track, Call.reference, Call.naming]
    rw [fdIndex_val, if_pos (Or.inr (listed.mpr ⟨k, hk, holds⟩))]
    refine ⟨⟨healthy.setFd _ _, fun j live => ?_⟩, h.chain, h.short, h.distinct, h.exact, h.nodup, fun j live => ?_⟩
    · by_cases new : j = fd
      · subst new
        show LiveFd own ((n.world.state.setFd j _).fdtable j)
        rw [setFd_self]
        exact ⟨⟨k, owned⟩, range⟩
      · show LiveFd own ((n.world.state.setFd fd _).fdtable j)
        rw [setFd_of_ne _ _ new]
        exact h.serves.live j (by simpa [new] using live)
    · by_cases new : j = fd
      · subst new
        show Opened n.disk ids ((n.world.state.setFd j _).fdtable j) (if j = j then _ else _)
        rw [setFd_self, if_pos rfl]
        exact ⟨member, k, hk, rfl, by rw [pairAt, show nameOf n.disk dirBid = dirname.bytes from named, holds.2]⟩
      · show Opened n.disk ids ((n.world.state.setFd fd _).fdtable j) (if j = fd then _ else _)
        rw [setFd_of_ne _ _ new, if_neg new]
        exact h.opened j (by simpa [new] using live)
  · -- A new file: its pair is added.
    have slot := free.some_of_count (room absent).1
    have index := free.range.resolve_left slot
    have change := created_slotChange healthy created roles h.short member free slot
    have some : i ≠ 0 := created.sound.role_ne_zero (role_of_own created.owned) fun no => Kind.noConfusion no
    have hs : freeInode.toNat < SFS_DB_NINODES := by omega
    have new : (dirname.bytes, name.bytes) ∉ n.files := fun old => by
      obtain ⟨k, hk, holds⟩ := listed.mp old
      exact absent k hk holds
    refine ⟨_, own', ids, Call.nameStep_ok run, ?_⟩
    dsimp only [Call.track, Call.reference, Call.naming]
    rw [fdIndex_val, if_neg (not_or.mpr ⟨isFd fd, new⟩)]
    refine ⟨⟨(created.healthy healthy role).setFd _ _, fun j live => ?_⟩, change.chain h.chain, fun id m => ?_,
      change.distinct h.distinct fun _ k hk _ used same => ?_, fun p => ?_, ?_, fun j live => ?_⟩
    · by_cases opened : j = fd
      · subst opened
        show LiveFd own' ((s'.setFd j _).fdtable j)
        rw [setFd_self]
        exact ⟨⟨_, created.owned⟩, range⟩
      · show LiveFd own' ((s'.setFd fd _).fdtable j)
        rw [setFd_of_ne _ _ opened, created.grows.fdtable]
        exact (h.serves.live j (by simpa [opened] using live)).kept fun owned _ => created.grows.grow owned
    · exact (change.name id m).symm ▸ h.short id m
    · exact absent k hk ⟨used, same.trans created.name⟩
    · show p ∈ n.files ++ [(dirname.bytes, name.bytes)] ↔ p ∈ scanPairs s'.disk ids
      rw [change.mem_fill member hs (free.empty index.1) some, List.mem_append, List.mem_singleton, h.exact, created.name,
        show nameOf n.world.state.disk dirBid = dirname.bytes from named]
    · exact List.nodup_append.mpr ⟨h.nodup, List.nodup_singleton _, fun p m q m' => by
        rw [List.mem_singleton.mp m']
        rintro rfl
        exact new m⟩
    · by_cases opened : j = fd
      · subst opened
        show Opened s'.disk ids ((s'.setFd j _).fdtable j) (if j = j then _ else _)
        rw [setFd_self, if_pos rfl]
        refine ⟨member, freeInode.toNat, hs, change.stored, ?_⟩
        rw [pairAt, change.name dirBid member, change.stored, created.name,
          show nameOf n.world.state.disk dirBid = dirname.bytes from named]
      · show Opened s'.disk ids ((s'.setFd fd _).fdtable j) (if j = fd then _ else _)
        rw [setFd_of_ne _ _ opened, created.grows.fdtable, if_neg opened]
        have before : n.world.live j = true := by simpa [opened] using live
        exact (h.opened j before).change change (h.inode_ne_zero before) (by
          rw [free.empty index.1]
          exact (h.inode_ne_zero before).symm)

/-! ### `sfs_close` and `sfs_remove` -/

theorem close_tracks (h : Tracks own n ids) {fd : Int} (indexed : Indexed fd) :
    ∃ n' own' ids', (Call.close fd).nameStep n = .ok n' ∧ Tracks own' n' ids' := by
  obtain ⟨slot, index⟩ := fdIndex_of_indexed indexed
  have run : (Call.close fd).run n.world.state =
      .ok (0, n.world.state.setFd slot { n.world.state.fdtable slot with valid := 0 }) := by
    rw [Call.run, sfsClose, index, ok_bind]
  refine ⟨_, own, ids, Call.nameStep_ok run, setFd_serves _ h.serves ⟨rfl, rfl⟩, h.chain, h.short, h.distinct, h.exact,
    h.nodup, fun i live => ?_⟩
  have before := h.opened i live
  by_cases here : i = slot
  · subst here
    show Opened n.disk ids ((n.world.state.setFd i _).fdtable i) (n.file i)
    rw [setFd_self]
    exact ⟨before.member, before.slot⟩
  · show Opened n.disk ids ((n.world.state.setFd slot _).fdtable i) (n.file i)
    rw [setFd_of_ne _ _ here]
    exact before

theorem remove_tracks (h : Tracks own n ids) {fd : Int} {slot : Fin 32} (live : n.world.Live fd slot)
    (small : (n.world.state.fdtable slot).inodeBid < SFS_DB_NINODES)
    (harmless : inodes (n.disk.read (n.world.state.fdtable slot).dirBid) (n.world.state.fdtable slot).inodeBid = 0 ∨
      inodes (n.disk.read (n.world.state.fdtable slot).dirBid) (n.world.state.fdtable slot).inodeBid =
        (n.world.state.fdtable slot).inodeBid) :
    ∃ n' own' ids', (Call.remove fd).nameStep n = .ok n' ∧ Tracks own' n' ids' := by
  obtain ⟨walk, roles⟩ := h.walkable
  obtain ⟨member, k, hk, holds, pair⟩ := h.opened slot live.2
  have some := h.inode_ne_zero live.2
  obtain ⟨s', run, healthy, table, written, kept, -⟩ := sfsRemove_ok h.serves.healthy live.1 rfl (h.serves.live slot live.2) small
  have change := removed_slotChange h.serves.healthy roles h.short member small hk holds some harmless written kept
  refine ⟨_, dropFile own (n.world.state.fdtable slot).inodeBid, ids, Call.nameStep_ok (c := .remove fd) run, ?_⟩
  dsimp only [Call.track, Call.reference, Call.naming]
  rw [live.1]
  have others : ∀ i, decide (n.world.live i = true ∧
      (n.world.state.fdtable i).inodeBid ≠ (n.world.state.fdtable slot).inodeBid) = true →
      n.world.live i = true ∧ (n.world.state.fdtable i).inodeBid ≠ (n.world.state.fdtable slot).inodeBid :=
    fun i still => of_decide_eq_true still
  refine ⟨⟨healthy, fun i still => ?_⟩, change.chain h.chain, fun id m => (change.name id m).symm ▸ h.short id m,
    change.distinct h.distinct fun no => absurd rfl no, fun p => ?_, h.nodup.erase _, fun i still => ?_⟩
  · obtain ⟨before, other⟩ := others i still
    show LiveFd _ (s'.fdtable i)
    rw [table]
    exact (h.serves.live i before).dropFile other
  · show p ∈ n.files.erase (n.file slot) ↔ p ∈ scanPairs s'.disk ids
    rw [h.nodup.mem_erase_iff, change.mem_clear h.distinct member hk (by rw [holds]; exact some), h.exact, ← pair, and_comm]
  · obtain ⟨before, other⟩ := others i still
    show Opened s'.disk ids (s'.fdtable i) (n.file i)
    rw [table]
    exact (h.opened i before).change change (h.inode_ne_zero before) (by rw [holds]; exact other.symm)

/-! ### Runs -/

theorem tidy_tracks {c : Call} (h : Tracks own n ids) (tidy : c.Tidy n) :
    ∃ n' own' ids', c.nameStep n = .ok n' ∧ Tracks own' n' ids' := by
  cases c with
  | mkdir temp dirname => exact mkdir_tracks h temp tidy.1 tidy.2
  | openFile inode dirname name =>
    obtain ⟨table, dirBid, found, present, fits, room⟩ := tidy
    exact open_tracks h inode table found present fits room
  | close fd => exact close_tracks h tidy
  | remove fd =>
    obtain ⟨slot, live, small, harmless⟩ := tidy
    exact remove_tracks h live small harmless
  | _ => exact tidy.elim

/-- After any run of tidy calls the scan of the directories finds the reference. -/
theorem tidy_agrees (s : State) (calls : List Call) (tidy : Meets Call.nameStep (fun c n => c.Tidy n) calls (Named.start s)) :
    ∃ n, runAll Call.nameStep calls (Named.start s) = .ok n ∧ n.Agrees := by
  obtain ⟨n, run, own, ids, tracks⟩ := runAll_keeps (fun n => ∃ own ids, Tracks own n ids)
    (fun c n ⟨own, ids, tracks⟩ here => by
      obtain ⟨n', own', ids', step, tracks'⟩ := tidy_tracks tracks here
      exact ⟨n', step, own', ids', tracks'⟩) ⟨bare, [], tracks_start s⟩ tidy
  exact ⟨n, run, tracks.agrees⟩

theorem countSlots_lt {dir : Block} {k : Nat} (hk : k < SFS_DB_NINODES) (empty : inodes dir k = 0) :
    countSlots dir < SFS_DB_NINODES := by
  have fewer : countSlots dir < (List.range SFS_DB_NINODES).length := by
    apply List.length_filter_lt_length_iff_exists.mpr
    refine ⟨k, List.mem_range.mpr hk, ?_⟩
    simp [empty]
  rw [List.length_range] at fewer
  exact fewer

theorem fileA_nonzero : ∀ c ∈ ([97] : List UInt8), c ≠ 0 := by simp

def fileA : CString := ⟨[97], fileA_nonzero⟩

/-- Slot 3, which `sfs_remove` clears as well, is empty. -/
theorem mkdir_open_tidy : Meets Call.nameStep (fun c n => c.Tidy n) [.mkdir .zero slash, .openFile .zero slash fileA, .remove 0]
    (Named.start .initial) := by
  have empty : check (fun n => (findFd n.world.state).isSome && check (fun dirBid => inodes (n.disk.read dirBid) 0 == 0)
      (sfsFindDir n.world.state slash)) ((Call.mkdir .zero slash).nameStep (Named.start .initial)) = true := by
    decide +kernel
  have opened : check (fun n => n.world.live 0 && decide ((n.world.state.fdtable 0).inodeBid < SFS_DB_NINODES ∧
      inodes (n.disk.read (n.world.state.fdtable 0).dirBid) (n.world.state.fdtable 0).inodeBid = 0))
      (runAll Call.nameStep [.mkdir .zero slash, .openFile .zero slash fileA] (Named.start .initial)) = true := by
    decide +kernel
  refine ⟨⟨by decide, fun _ => free_start .initial⟩, fun n made => ⟨?_, fun n' next => ⟨?_, fun _ _ => trivial⟩⟩⟩
  · rw [made, check, Bool.and_eq_true] at empty
    obtain ⟨table, directory⟩ := empty
    obtain ⟨⟨r, s'⟩, run, same⟩ := bind_ok made
    obtain rfl := Except.ok.inj same
    obtain ⟨dirBid, found, present, fits, room⟩ := @openFine_first r s' run fileA (by decide)
    rw [found, check] at directory
    refine ⟨Option.isSome_iff_ne_none.mp table, dirBid, found, present, fits, fun absent => ⟨?_, room absent⟩⟩
    exact countSlots_lt (by decide) (eq_of_beq directory)
  · rw [runAll, made, ok_bind, runAll, next, ok_bind, runAll, check, Bool.and_eq_true] at opened
    have facts := of_decide_eq_true opened.2
    exact ⟨0, ⟨fdIndex_val 0, opened.1⟩, facts.1, .inl facts.2⟩

theorem mkdir_open_remove_agrees : ∃ n, runAll Call.nameStep [.mkdir .zero slash, .openFile .zero slash fileA, .remove 0]
    (Named.start .initial) = .ok n ∧ n.Agrees :=
  tidy_agrees .initial _ mkdir_open_tidy

/-! ### The store of `sfs_remove` through the inode's block number -/

/-- An existing directory with an empty slot, a free descriptor, and descriptors in use of files that are there. -/
def Call.proper (n : Named) : Call → Bool
  | mkdir _ dirname => dirname.bytes.length ≤ 119
  | openFile _ dirname _ => (findFd n.world.state).isSome && check (fun dirBid => dirBid != 0 &&
      countSlots (n.disk.read dirBid) < SFS_DB_NINODES) (sfsFindDir n.world.state dirname)
  | close fd => check (fun slot => n.world.live slot && (n.world.state.fdtable slot).valid == 1) (fdIndex fd)
  | remove fd => check (fun slot => n.world.live slot && (n.world.state.fdtable slot).valid == 1) (fdIndex fd)
  | _ => false

/-- The inode of the first file is in block 3, so slot 3 loses the fourth file. -/
def removeFirst : List Call :=
  [.mkdir .zero slash, .openFile .zero slash ⟨[97], by simp⟩, .openFile .zero slash ⟨[98], by simp⟩,
    .openFile .zero slash ⟨[99], by simp⟩, .openFile .zero slash ⟨[100], by simp⟩, .remove 0]

theorem removeFirst_proper : Meets Call.nameStep (fun c n => c.proper n = true) removeFirst (Named.start .initial) := by
  decide +kernel

theorem removeFirst_lists : check (fun n => check (fun r => r.1 == 2 && n.files.length == 3) (sfsLs n.world.state))
    (runAll Call.nameStep removeFirst (Named.start .initial)) = true := by
  decide +kernel

theorem proper_removal_loses_file : ¬ ∀ (s : State) (calls : List Call),
    Meets Call.nameStep (fun c n => c.proper n = true) calls (Named.start s) →
      ∀ n, runAll Call.nameStep calls (Named.start s) = .ok n → n.Agrees := by
  intro claim
  obtain ⟨n, run, facts⟩ := of_check removeFirst_lists
  obtain ⟨r, listed, counts⟩ := of_check facts
  obtain ⟨ids, -, -, -, -, agreed⟩ := claim .initial removeFirst removeFirst_proper n run
  simp only [Bool.and_eq_true, beq_iff_eq] at counts
  have same : r.1 = (n.files.length : Nat) := by rw [Except.ok.inj (listed.symm.trans agreed)]
  omega

end StorageStack.Sfs
