import StorageStack.Sfs.Reference

/-!
# The code follows the reference

One lemma for each call: if the state mirrors the reference and the call suits it, the call returns what the
reference says and the state it leaves mirrors the reference after the call. Runs of calls and restarts follow.
-/

namespace StorageStack.Sfs
open Lib CString

variable {own own' : Owners} {s s' : State} {d : Image} {ids : List Nat} {ref ref' : Reference} {fd : Int} {slot : Fin 32}
  {p : Pair} {cur : Nat}

/-- Which blocks are anchored does not depend on the ownership map, as long as it is sound. -/
theorem Tight.of_sound (tight : Tight own d) (sound : Sound own d) (sound' : Sound own' d) : Tight own' d := by
  intro b hb low set
  have anchored := tight b hb low set
  suffices both : (b = 0 ∨ ∃ l, own b = some l ∧ own' b = some l) ∧ layout.Anchored own' (Loc.read d) 0 b from both.2
  clear hb low set
  induction anchored with
  | root => exact ⟨.inl rfl, .root⟩
  | @step b l owned live named _ ih =>
    have same : own' (layout.host l) = own (layout.host l) := by
      rcases ih.1 with zero | ⟨l', old, new⟩
      · rw [zero, sound.boot, sound'.boot]
      · rw [old, new]
    have used : l.read d ≠ 0 := sound.ne_zero_of_holds ⟨live, named ▸ owned⟩
    have live' := live.congr same
    have owned' : own' b = some l := by
      rw [← named]
      exact sound'.refs l live' used
    exact ⟨.inr ⟨l, owned, owned'⟩, .step owned' live' named ih.2⟩

/-- Descriptors may be given up. -/
theorem Tracks.congr {n n' : Named} (h : Tracks own n ids) (state : n'.world.state = n.world.state) (files : n'.files = n.files)
    (live : ∀ i, n'.world.live i = true → n.world.live i = true ∧ n'.file i = n.file i) : Tracks own n' ids := by
  refine ⟨⟨by rw [state]; exact h.serves.healthy, fun i on => ?_⟩, ?_, ?_, ?_, ?_, by rw [files]; exact h.nodup, fun i on => ?_⟩
  · rw [state]
    exact h.serves.live i (live i on).1
  · rw [Named.disk, state]
    exact h.chain
  · rw [Named.disk, state]
    exact h.short
  · rw [Named.disk, state]
    exact h.distinct
  · rw [Named.disk, state, files]
    exact h.exact
  · rw [Named.disk, state, (live i on).2]
    exact h.opened i (live i on).1

/-! ### What the relation says -/

theorem Reference.opened_eq_some {cur : Nat} (h : ref.opened fd = some (slot, p, cur)) :
    fdIndex fd = .ok slot ∧ (ref.handles slot).file = some (p, cur) := by
  rw [opened] at h
  cases index : fdIndex fd with
  | error e =>
    rw [index] at h
    cases h
  | ok slot' =>
    rw [index] at h
    obtain ⟨q, file, same⟩ := Option.map_eq_some_iff.mp h
    obtain ⟨rfl, rfl⟩ := Prod.mk.inj same
    exact ⟨rfl, file⟩

theorem Mirrors.mem_dirs (m : Mirrors own ids s ref) {name : List UInt8} :
    name ∈ ref.dirs ↔ ∃ id ∈ ids, nameOf s.disk id = name := by
  rw [← m.dirs, List.mem_map]

theorem Mirrors.healthy (m : Mirrors own ids s ref) : Healthy own s := m.tracks.serves.healthy

theorem Mirrors.walk (m : Mirrors own ids s ref) : Walkable s ids := m.tracks.walkable.1

theorem Mirrors.roles (m : Mirrors own ids s ref) : ∀ id ∈ ids, Owners.role own id = some .dir := m.tracks.walkable.2

/-- A descriptor with a file. -/
structure Holding (own : Owners) (ids : List Nat) (s : State) (ref : Reference) (slot : Fin 32) (p : Pair)
    (cur : Nat) : Prop where
  role : Owners.role own (s.fdtable slot).inodeBid = some .inode
  stands : Stands s.disk (s.fdtable slot).inodeBid (ref.content p)
  cursor : (s.fdtable slot).cur = cur
  opened : Opened s.disk ids (s.fdtable slot) p
  file : (ref.named s).file slot = p
  live : (ref.named s).world.live slot = true

theorem Mirrors.holding (m : Mirrors own ids s ref) (file : (ref.handles slot).file = some (p, cur)) :
    Holding own ids s ref slot p cur := by
  have live : (ref.named s).world.live slot = true := by
    show ((ref.handles slot).file).isSome = true
    rw [file]
    rfl
  have named : (ref.named s).file slot = p := by
    show ((ref.handles slot).file.map Prod.fst).getD ([], []) = p
    rw [file]
    rfl
  have opened : Opened s.disk ids (s.fdtable slot) p := named ▸ m.tracks.opened slot live
  obtain ⟨member, k, hk, holds, pair⟩ := id opened
  have role : Owners.role own (s.fdtable slot).inodeBid = some .inode := (m.tracks.serves.live slot live).role
  have stands := m.contents _ member k hk (by rw [holds]; exact m.tracks.inode_ne_zero live)
  rw [pair, holds] at stands
  exact ⟨role, stands, m.cursor slot p cur file, opened, named, live⟩

/-- Two slots have the same file exactly when they have the same names. -/
theorem inodes_eq_iff {id id' k k' : Nat} (sound : Sound own d) (roles : ∀ id ∈ ids, Owners.role own id = some .dir)
    (distinct : Distinct d ids) (member : id ∈ ids) (hk : k < SFS_DB_NINODES) (used : inodes (d.read id) k ≠ 0)
    (member' : id' ∈ ids) (hk' : k' < SFS_DB_NINODES) (used' : inodes (d.read id') k' ≠ 0) :
    inodes (d.read id) k = inodes (d.read id') k' ↔ pairAt d id k = pairAt d id' k' := by
  constructor
  · intro same
    have owned := sound.slot_owned (roles id member) hk used
    rw [same, sound.slot_owned (roles id' member') hk' used'] at owned
    obtain ⟨dirs, slots⟩ : id' = id ∧ k' = k := by simpa using owned
    rw [dirs, slots]
  · intro same
    obtain ⟨dirs, files⟩ := pairAt_eq_iff.mp same
    obtain rfl := distinct.dirs id member id' member' dirs
    rw [distinct.files id member k hk k' hk' used used' files]

/-! ### Free blocks -/

theorem Stands.length_blocks {i : Nat} {file : FileRef} (stands : Stands d i file) :
    (i :: blocksOf d [firstFrame (d.read i)]).length = file.blocks := by
  obtain ⟨f, ok, -, held⟩ := stands
  obtain ⟨rfl, -, -⟩ := ok.chain
  have entries : contents (d.read (firstFrame (d.read i))) 0 SFS_FRAME_COUNT =
      ((List.range SFS_FRAME_COUNT).filter file.held).map (content (d.read (firstFrame (d.read i)))) := by
    rw [contents, ← List.range_eq_range', List.filter_map]
    congr 1
    apply List.filter_congr
    intro k member
    rw [Bool.eq_iff_iff, held k (List.mem_range.mp member), Function.comp_apply, decide_eq_true_eq]
  rw [blocksOf, List.flatMap_cons, List.flatMap_nil, List.append_nil, entries, List.length_cons, List.length_append,
    List.length_map, List.length_singleton, FileRef.blocks]
  omega

/-- The reference knows how many blocks are free. -/
theorem Mirrors.clearCount_eq (m : Mirrors own ids s ref) : (s.disk.read 1).clearCount = ref.free := by
  have stands : ∀ i ∈ listed s.disk ids, ∃ p, Stands s.disk i (ref.content p) := by
    intro i member
    obtain ⟨id, dir, k, hk, used, rfl⟩ := mem_listed.mp member
    exact ⟨_, m.contents id dir k hk used⟩
  have chains : ∀ i ∈ listed s.disk ids, FrameChain s.disk i [firstFrame (s.disk.read i)] := by
    intro i member
    obtain ⟨p, f, ok, -⟩ := stands i member
    have chain := ok.chain
    obtain ⟨rfl, -⟩ := id chain
    exact chain
  have total := space_exact m.tight m.healthy.sound m.walk.chain m.roles chains
  have sizes : (listed s.disk ids).map (fun i => (i :: blocksOf s.disk [firstFrame (s.disk.read i)]).length) =
      (scanPairs s.disk ids).map fun p => (ref.content p).blocks := by
    rw [listed, scanPairs, List.map_flatMap, List.map_flatMap]
    refine List.flatMap_congr fun id member => ?_
    rw [List.map_map, List.map_map]
    refine List.map_congr_left fun k slot => ?_
    obtain ⟨hk, used⟩ := mem_usedSlots.mp slot
    exact (m.contents id member k hk used).length_blocks
  have perm : ref.files.Perm (scanPairs s.disk ids) :=
    (List.perm_ext_iff_of_nodup m.tracks.nodup (m.tracks.distinct.nodup (Chain.nodup m.walk.chain))).mpr m.tracks.exact
  have files := (perm.map fun p => (ref.content p).blocks).sum_eq
  have dirs : ids.length = ref.dirs.length := by rw [← m.dirs, List.length_map]
  rw [inUse, List.length_cons, List.length_cons, List.length_append, List.length_flatMap, sizes, ← files, dirs] at total
  unfold Reference.free
  omega

/-! ### The answer to one call -/

/-- The code answers the call as the reference does, and mirrors it afterwards. -/
def Follows (s : State) (ref : Reference) (e : Event) : Prop :=
  ∃ own ids s', e.observe s = .ok ([(e.reply ref).1], s') ∧ Mirrors own ids s' (e.reply ref).2

theorem follows_of (own : Owners) (ids : List Nat) {c : Call} {r : Int} (m : Mirrors own ids s' (c.reply ref).2)
    (plain : ∀ fd buf length, c ≠ .read fd buf length) (run : c.run s = .ok (r, s')) (answer : (c.reply ref).1 = (r, [])) :
    Follows s ref (.call c) := by
  refine ⟨own, ids, s', ?_, m⟩
  show _ = Except.ok ([(c.reply ref).1], s')
  rw [answer]
  cases c with
  | read fd buf length => exact absurd rfl (plain fd buf length)
  | _ =>
    rw [Event.observe, run, ok_bind]
    simp

/-- The call leaves no block unnamed. -/
theorem Mirrors.tight_after (m : Mirrors own ids s ref) {c : Call} {r : Int} (run : c.run s = .ok (r, s'))
    (fine : c.Fine (ref.named s).world) (format : c ≠ .mkfs) (thrifty : c.Thrifty (ref.named s).world)
    (sound : Sound own' s'.disk) : Tight own' s'.disk := by
  obtain ⟨w', own'', step, serves, saved⟩ := fine_serves m.tracks.serves fine format
  obtain rfl := Except.ok.inj ((Call.step_ok (w := (ref.named s).world) run).symm.trans step)
  exact (saved thrifty m.tight).of_sound serves.healthy.sound sound

theorem printInfo_follows (m : Mirrors own ids s ref) : Follows s ref (.call .printInfo) := by
  have same : sfsPrintInfo s = s := by rw [sfsPrintInfo, ← m.healthy.coherent.sb]
  exact follows_of own ids m (by simp) (congrArg (fun t => Except.ok ((0 : Int), t)) same) rfl

theorem lsdir_follows (m : Mirrors own ids s ref) : Follows s ref (.call .lsdir) := by
  refine follows_of own ids m (by simp) (sfsLsdir_ok m.walk) ?_
  rw [Call.reply, ← m.dirs, List.length_map]

theorem ls_follows (m : Mirrors own ids s ref) : Follows s ref (.call .ls) := by
  obtain ⟨-, -, -, -, -, run⟩ := m.tracks.agrees
  exact follows_of own ids m (by simp) run rfl

/-- A new process finds what the last one left, without descriptors. -/
theorem restart_follows (m : Mirrors own ids s ref) : Follows s ref .restart := by
  have coherent := m.healthy.coherent
  have healthy : Healthy own (sfsReloadfs { State.initial with disk := s.disk }) :=
    m.healthy.congr coherent.sb.symm coherent.freemap.symm rfl
  refine ⟨own, ids, _, rfl, ⟨⟨healthy, fun i live => ?_⟩, m.tracks.chain, m.tracks.short, m.tracks.distinct, m.tracks.exact,
    m.tracks.nodup, fun i live => ?_⟩, m.tight, m.dirs, m.contents, fun i => ⟨fun _ => rfl, fun _ => rfl⟩, fun i p cur file => ?_⟩
  · cases live
  · cases live
  · cases file

/-! ### Descriptors -/

/-- A descriptor of the same file is stored. -/
theorem Mirrors.setFd (m : Mirrors own ids s ref) {entry : Fd} {handle : Handle}
    (same : (s.fdtable slot).inodeBid = entry.inodeBid ∧ (s.fdtable slot).dirBid = entry.dirBid)
    (keep : handle.file.map Prod.fst = (ref.handles slot).file.map Prod.fst) (valid : handle.valid = false ↔ entry.valid = 0)
    (cursor : ∀ p cur, handle.file = some (p, cur) → entry.cur = cur) :
    Mirrors own ids (s.setFd slot entry) (ref.setHandle slot handle) := by
  have files : ∀ i, ((ref.setHandle slot handle).handles i).file.map Prod.fst = (ref.handles i).file.map Prod.fst := by
    intro i
    show (if i = slot then handle else ref.handles i).file.map Prod.fst = _
    split
    · rename_i here
      rw [keep, here]
    · rfl
  have tracks : Tracks own ⟨⟨s.setFd slot entry, (ref.named s).world.live⟩, ref.files, (ref.named s).file⟩ ids := by
    refine ⟨setFd_serves entry m.tracks.serves same, m.tracks.chain, m.tracks.short, m.tracks.distinct, m.tracks.exact,
      m.tracks.nodup, fun i live => ?_⟩
    have before := m.tracks.opened i live
    show Opened s.disk ids ((s.setFd slot entry).fdtable i) ((ref.named s).file i)
    by_cases here : i = slot
    · subst here
      rw [setFd_self]
      obtain ⟨member, k, hk, holds, pair⟩ : Opened s.disk ids (s.fdtable i) ((ref.named s).file i) := before
      rw [same.2] at member holds pair
      exact ⟨member, k, hk, holds.trans same.1, pair⟩
    · rw [setFd_of_ne _ _ here]
      exact before
  refine ⟨tracks.congr rfl rfl fun i live => ⟨?_, ?_⟩, m.tight, m.dirs, m.contents, fun i => ?_, fun i p cur file => ?_⟩
  · have some : ((ref.setHandle slot handle).handles i).file.isSome = true := live
    rw [← Option.isSome_map (f := Prod.fst), files, Option.isSome_map] at some
    exact some
  · show (((ref.setHandle slot handle).handles i).file.map Prod.fst).getD ([], []) = _
    rw [files]
    rfl
  · show (if i = slot then handle else ref.handles i).valid = false ↔ ((s.setFd slot entry).fdtable i).valid = 0
    by_cases here : i = slot
    · rw [if_pos here, here, setFd_self]
      exact valid
    · rw [if_neg here, setFd_of_ne _ _ here]
      exact m.valid i
  · replace file : (if i = slot then handle else ref.handles i).file = some (p, cur) := file
    by_cases here : i = slot
    · rw [if_pos here] at file
      rw [here, setFd_self]
      exact cursor p cur file
    · rw [if_neg here] at file
      rw [setFd_of_ne _ _ here]
      exact m.cursor i p cur file

theorem Mirrors.move (m : Mirrors own ids s ref) (file : (ref.handles slot).file = some (p, cur)) (target : Nat) :
    Mirrors own ids (s.setFd slot { s.fdtable slot with cur := target }) (ref.move slot p target) := by
  refine m.setFd ⟨rfl, rfl⟩ (by rw [file]; rfl) (m.valid slot) fun q cur' same => ?_
  exact (Prod.mk.inj (Option.some.inj same)).2

theorem close_follows (m : Mirrors own ids s ref) (indexed : Indexed fd) : Follows s ref (.call (.close fd)) := by
  obtain ⟨slot, index⟩ := fdIndex_of_indexed indexed
  have after : Mirrors own ids (s.setFd slot { s.fdtable slot with valid := 0 })
      (ref.setHandle slot { ref.handles slot with valid := false }) :=
    m.setFd ⟨rfl, rfl⟩ rfl (by simp) fun p cur file => m.cursor slot p cur file
  refine follows_of own ids ?_ (by simp) (show (Call.close fd).run s = _ by rw [Call.run, sfsClose, index, ok_bind]) ?_
  · rw [Call.reply, index]
    exact after
  · rw [Call.reply, index]

theorem seek_follows (m : Mirrors own ids s ref) {relative loc : Int} (suits : (Call.seek fd relative loc).Suits s ref) :
    Follows s ref (.call (.seek fd relative loc)) := by
  obtain ⟨slot, p, cur, opened, known, low, high⟩ := suits
  obtain ⟨index, file⟩ := Reference.opened_eq_some opened
  have holding := m.holding file
  have target : newCur s slot relative loc = .ok (ref.base p cur loc + relative) := by
    rcases known with rfl | rfl | rfl
    · show Except.ok relative = Except.ok (((0 : Nat) : Int) + relative)
      rw [Nat.cast_zero, Int.zero_add]
    · show Except.ok (toInt32 ((s.fdtable slot).cur + relative)) = _
      rw [holding.cursor]
      exact congrArg Except.ok (toInt32_of_range low high)
    · show Except.ok (toInt32 (size (s.disk.read (s.fdtable slot).inodeBid) + relative)) = _
      rw [← holding.stands.length_eq]
      exact congrArg Except.ok (toInt32_of_range low high)
  have clamp : ∀ q : Int, (if q < 0 then 0 else q.toNat) = (max 0 q).toNat := by
    intro q
    split <;> omega
  refine follows_of own ids ?_ (by simp)
    (show (Call.seek fd relative loc).run s = _ by rw [Call.run, sfsSeek, index, ok_bind, target, ok_bind, clamp]) ?_
  · rw [Call.reply, opened]
    exact m.move file _
  · rw [Call.reply, opened]

theorem eof_follows (m : Mirrors own ids s ref) (suits : (Call.eof fd).Suits s ref) : Follows s ref (.call (.eof fd)) := by
  obtain ⟨⟨slot, p, cur⟩, opened⟩ := Option.isSome_iff_exists.mp suits
  obtain ⟨index, file⟩ := Reference.opened_eq_some opened
  have holding := m.holding file
  refine follows_of own ids ?_ (by simp)
    (show (Call.eof fd).run s = _ by rw [Call.run, sfsEof, index, ok_bind]) ?_
  · rw [Call.reply, opened]
    exact m
  · rw [Call.reply, opened]
    dsimp only
    rw [holding.cursor, holding.stands.length_eq]

theorem read_follows (m : Mirrors own ids s ref) {buf : List UInt8} {length : Int}
    (suits : (Call.read fd buf length).Suits s ref) :
    Follows s ref (.call (.read fd buf length)) := by
  obtain ⟨slot, p, cur, opened, nonneg, room, range, named⟩ := suits
  obtain ⟨index, file⟩ := Reference.opened_eq_some opened
  have holding := m.holding file
  obtain ⟨n, rfl⟩ := Int.eq_ofNat_of_zero_le nonneg
  have cursor := holding.cursor
  rw [Int.toNat_natCast, ← cursor] at range named
  have run := read_stands m.healthy index rfl holding.role holding.stands range named (Int.ofNat_le.mp room)
  refine ⟨own, ids, s.setFd slot { s.fdtable slot with cur := cur + n }, ?_, ?_⟩
  · rw [Event.observe, Event.reply, Call.reply, opened]
    dsimp only
    rw [run, ok_bind, Int.toNat_natCast, cursor]
  · rw [Event.reply, Call.reply, opened]
    exact m.move file _

/-! ### Directories -/

theorem file_role {inode b : Nat} (role : Owners.role own inode = some .inode) (file : b = inode ∨ InFile own inode b) :
    ∃ kind, Owners.role own b = some kind ∧ kind ≠ .dir ∧ kind ≠ .super := by
  rcases file with rfl | file
  · exact ⟨_, role, by decide, by decide⟩
  · rcases file.role with frame | data
    · exact ⟨_, frame, by decide, by decide⟩
    · exact ⟨_, data, by decide, by decide⟩

/-- The slots that are in use were so before, and no block of their files changed. -/
theorem Contents.congr {ids' : List Nat} {content content' : Pair → FileRef} (h : Contents s.disk ids content)
    (sound : Sound own s.disk) (roles : ∀ id ∈ ids, Owners.role own id = some .dir)
    (slots : ∀ id ∈ ids', ∀ k < SFS_DB_NINODES, inodes (d.read id) k ≠ 0 → id ∈ ids ∧
      inodes (d.read id) k = inodes (s.disk.read id) k ∧ content' (pairAt d id k) = content (pairAt s.disk id k))
    (blocks : ∀ i b, Owners.role own i = some .inode → b = i ∨ InFile own i b → d.read b = s.disk.read b) :
    Contents d ids' content' := by
  intro id member k hk used
  obtain ⟨before, same, file⟩ := slots id member k hk used
  rw [same] at used ⊢
  rw [file]
  have role := role_of_own (sound.slot_owned (roles id before) hk used)
  exact (h id before k hk used).congr sound role fun b => blocks _ b role

theorem mkdir_follows (m : Mirrors own ids s ref) (temp : Block) {dirname : CString}
    (suits : (Call.mkdir temp dirname).Suits s ref) : Follows s ref (.call (.mkdir temp dirname)) := by
  obtain ⟨fits, room⟩ := suits
  have walk := m.walk
  by_cases present : dirname.bytes ∈ ref.dirs
  · refine follows_of own ids ?_ (by simp) (sfsMkdir_found walk (m.mem_dirs.mp present)) ?_
    · rw [Call.reply, if_pos present]
      exact m
    · rw [Call.reply, if_pos present]
  have absent : ∀ id ∈ ids, nameOf s.disk id ≠ dirname.bytes := fun id member same => present (m.mem_dirs.mpr ⟨id, member, same⟩)
  have free : 0 < (s.disk.read 1).clearCount := by
    rw [m.clearCount_eq]
    exact room present
  obtain ⟨b, v, hb, clear, -, filled, run⟩ := sfsMkdir_new temp walk absent free (by omega)
  obtain ⟨v', filled', last, empty, holds⟩ := @newDir_ok dirname temp (by omega)
  obtain rfl := Except.ok.inj (filled.symm.trans filled')
  obtain ⟨rest, named⟩ := holds fits
  obtain ⟨n', own', ids', step, tracks⟩ := mkdir_tracks m.tracks temp fits fun _ => free
  obtain rfl := Except.ok.inj ((Call.nameStep_ok (n := ref.named s) (c := .mkdir temp dirname) run).symm.trans step)
  have chain := (addDir_walkable walk hb clear (walk.length_lt hb clear) (by rw [named]; simp) last).chain
  obtain rfl := Chain.unique tracks.chain chain
  have added := addDir_dirAdded m.healthy walk m.roles hb clear empty named
  have after : Mirrors own' (ids ++ [b]) (s.addDir ids b v) { ref with dirs := ref.dirs ++ [dirname.bytes] } := by
    refine ⟨tracks, ?_, ?_, ?_, fun i => ?_, fun i p cur file => ?_⟩
    · refine m.tight_after (c := .mkdir temp dirname) run ?_ (by simp) trivial tracks.serves.healthy.sound
      exact ⟨m.healthy.coherent.loaded, by omega, fun _ => free⟩
    · have kept := List.map_congr_left fun id member => added.name id member
      rw [List.map_append, List.map_singleton, added.named, kept, m.dirs]
    · refine m.contents.congr m.healthy.sound m.roles (fun id member k hk used => ?_) fun i c role file => ?_
      · rcases List.mem_append.mp member with old | new
        · rw [added.slots id old] at used ⊢
          exact ⟨old, rfl, by rw [added.pair old hk used]⟩
        · rw [List.mem_singleton.mp new] at used
          exact absurd (added.empty k hk) used
      · obtain ⟨kind, owned, noDir, noSuper⟩ := file_role role file
        have sound := m.healthy.sound
        refine read_addDir_other walk hb (sound.role_lt owned) (sound.role_ne_zero owned noSuper) (sound.role_ne_one owned) ?_ ?_
        · rintro rfl
          exact owned_of_role owned (sound.free_of_clear clear)
        · intro dir
          rw [m.roles c dir] at owned
          exact noDir (Option.some.inj owned).symm
    · rw [addDir_fdtable]
      exact m.valid i
    · rw [addDir_fdtable]
      exact m.cursor i p cur file
  refine follows_of own' (ids ++ [b]) ?_ (by simp) run ?_
  · rw [Call.reply, if_neg present]
    exact after
  · rw [Call.reply, if_neg present]

/-- A directory without files is gone, and everything else a scan reads is as before. -/
structure DirDropped (front : List Nat) (id : Nat) (back : List Nat) (d d' : Image) : Prop where
  empty : ∀ k < SFS_DB_NINODES, inodes (d.read id) k = 0
  name : ∀ c ∈ front ++ back, nameOf d' c = nameOf d c
  slots : ∀ c ∈ front ++ back, ∀ k, inodes (d'.read c) k = inodes (d.read c) k
  files : ∀ c ∈ front ++ back, ∀ k < SFS_DB_NINODES, inodes (d.read c) k ≠ 0 →
    fileOf d' (inodes (d.read c) k) = fileOf d (inodes (d.read c) k)

section
variable {front back : List Nat} {id : Nat} {d' : Image}

theorem mem_left {c : Nat} (member : c ∈ front ++ back) : c ∈ front ++ id :: back := by
  rcases List.mem_append.mp member with before | behind
  · exact List.mem_append_left _ before
  · exact List.mem_append_right _ (List.mem_cons_of_mem _ behind)

theorem DirDropped.pair (h : DirDropped front id back d d') {c k : Nat} (member : c ∈ front ++ back) (hk : k < SFS_DB_NINODES)
    (used : inodes (d.read c) k ≠ 0) : pairAt d' c k = pairAt d c k := by
  rw [pairAt, pairAt, h.name c member, h.slots c member, h.files c member k hk used]

/-- A directory with a slot in use is one of those that stay. -/
theorem DirDropped.stays (h : DirDropped front id back d d') {c k : Nat} (member : c ∈ front ++ id :: back)
    (hk : k < SFS_DB_NINODES)
    (used : inodes (d.read c) k ≠ 0) : c ∈ front ++ back := by
  rcases List.mem_append.mp member with before | behind
  · exact List.mem_append_left _ before
  · rcases List.mem_cons.mp behind with rfl | behind
    · exact absurd (h.empty k hk) used
    · exact List.mem_append_right _ behind

theorem DirDropped.mem_scanPairs (h : DirDropped front id back d d') {p : Pair} :
    p ∈ scanPairs d' (front ++ back) ↔ p ∈ scanPairs d (front ++ id :: back) := by
  simp only [Sfs.mem_scanPairs]
  constructor
  · rintro ⟨c, member, k, hk, used, rfl⟩
    rw [h.slots c member] at used
    exact ⟨c, mem_left member, k, hk, used, (h.pair member hk used).symm⟩
  · rintro ⟨c, member, k, hk, used, rfl⟩
    have left := h.stays member hk used
    exact ⟨c, left, k, hk, by rwa [h.slots c left], h.pair left hk used⟩

theorem DirDropped.distinct (h : DirDropped front id back d d') (distinct : Distinct d (front ++ id :: back)) :
    Distinct d' (front ++ back) := by
  refine ⟨fun c m c' m' same => ?_, fun c m j hj k hk usedJ usedK same => ?_⟩
  · rw [h.name c m, h.name c' m'] at same
    exact distinct.dirs c (mem_left m) c' (mem_left m') same
  · rw [h.slots c m] at usedJ usedK
    rw [h.slots c m, h.slots c m, h.files c m j hj usedJ, h.files c m k hk usedK] at same
    exact distinct.files c (mem_left m) j hj k hk usedJ usedK same

theorem dropDir_dirDropped (h : Healthy own s) (walk : Walkable s (front ++ id :: back))
    (roles : ∀ c ∈ front ++ id :: back, Owners.role own c = some .dir)
    (empty : ∀ k < SFS_DB_NINODES, inodes (s.disk.read id) k = 0) :
    DirDropped front id back s.disk (s.dropDir front id).disk := by
  have link : ∀ c ∈ front ++ back, (s.dropDir front id).disk.read c = s.disk.read c ∨
      (s.dropDir front id).disk.read c = setNextDir (s.disk.read c) (nextDir (s.disk.read id)) := by
    intro c member
    have before : c ∈ front ++ id :: back := mem_left member
    exact read_dropDir_dir walk (walk.small c before) (walk.ne_zero before) (walk.ne_one before)
  refine ⟨empty, fun c member => ?_, fun c member k => ?_, fun c member k hk used => ?_⟩
  · rcases link c member with same | linked
    · rw [nameOf, nameOf, same]
    · rw [nameOf, nameOf, linked, dirName_setNextDir]
  · rcases link c member with same | linked
    · rw [same]
    · rw [linked, inodes_setNextDir]
  · have role := (h.slot_role (roles c (mem_left member)) hk used).2
    rw [fileOf, fileOf, read_dropDir_other walk (h.sound.role_lt role) (h.sound.role_ne_zero role (by decide))
      (h.sound.role_ne_one role) fun inside => ?_]
    rw [roles _ (List.mem_append_left _ inside)] at role
    cases role

theorem rmdir_tracks {n : Named} {dirname : CString} (h : Tracks own n (front ++ id :: back))
    (found : sfsFindDir n.world.state dirname = .ok id) (empty : ∀ k < SFS_DB_NINODES, inodes (n.disk.read id) k = 0) :
    ∃ own', Tracks own' ⟨⟨n.world.state.dropDir front id, n.world.live⟩, n.files, n.file⟩ (front ++ back) := by
  obtain ⟨walk, roles⟩ := h.walkable
  have healthy := h.serves.healthy
  have dropped := dropDir_dirDropped healthy walk roles empty
  obtain ⟨r, own', s', run, healthy', kept, table, -⟩ := rmdir_healthy healthy dirname
  obtain ⟨-, rfl⟩ := Prod.mk.inj (Except.ok.inj ((sfsRmdir_found walk found).symm.trans run))
  refine ⟨own', h.serves.next healthy' kept (sameFile_of_eq table), (dropDir_walkable walk).chain, fun c member => ?_,
    dropped.distinct h.distinct, fun p => (h.exact p).trans dropped.mem_scanPairs.symm, h.nodup, fun i live => ?_⟩
  · exact (dropped.name c member).symm ▸ h.short c (mem_left member)
  · obtain ⟨member, k, hk, holds, pair⟩ := h.opened i live
    have used : inodes (n.disk.read (n.world.state.fdtable i).dirBid) k ≠ 0 := by
      rw [holds]
      exact h.inode_ne_zero live
    have left := dropped.stays member hk used
    dsimp only [Named.disk]
    rw [table]
    exact ⟨left, k, hk, (dropped.slots _ left k).trans holds, (dropped.pair left hk used).trans pair⟩

end

theorem rmdir_follows (m : Mirrors own ids s ref) {dirname : CString} (suits : (Call.rmdir dirname).Suits s ref) :
    Follows s ref (.call (.rmdir dirname)) := by
  have walk := m.walk
  rcases walk.find_cases dirname with ⟨-, absent⟩ | ⟨front, id, back, rfl, found, named⟩
  · have missing : dirname.bytes ∉ ref.dirs := fun present => by
      obtain ⟨id, member, same⟩ := m.mem_dirs.mp present
      exact absent id member same
    refine follows_of own ids ?_ (by simp) (sfsRmdir_absent walk absent) ?_
    · rw [Call.reply, if_neg missing]
      exact m
    · rw [Call.reply, if_neg missing]
  have member : id ∈ front ++ id :: back := by simp
  have present : dirname.bytes ∈ ref.dirs := m.mem_dirs.mpr ⟨id, member, named⟩
  have empty : ∀ k < SFS_DB_NINODES, inodes (s.disk.read id) k = 0 := by
    intro k hk
    by_contra used
    have listed : pairAt s.disk id k ∈ ref.files := (m.tracks.exact _).mpr (mem_scanPairs.mpr ⟨id, member, k, hk, used, rfl⟩)
    have dir : (pairAt s.disk id k).1 = nameOf s.disk id := by rw [pairAt]
    exact suits _ listed (dir.trans named)
  obtain ⟨own', tracks⟩ := rmdir_tracks m.tracks found empty
  have run := sfsRmdir_found walk found
  have dropped := dropDir_dirDropped m.healthy walk m.roles empty
  have after : Mirrors own' (front ++ back) (s.dropDir front id) { ref with dirs := ref.dirs.erase dirname.bytes } := by
    refine ⟨tracks, ?_, ?_, ?_, fun i => ?_, fun i p cur file => ?_⟩
    · refine m.tight_after (c := .rmdir dirname) run trivial (by simp) (fun dirBid here _ => ?_) tracks.serves.healthy.sound
      obtain rfl : id = dirBid := Except.ok.inj (found.symm.trans here)
      exact empty
    · have first : dirname.bytes ∉ front.map (nameOf s.disk) := fun before => by
        obtain ⟨c, inside, same⟩ := List.mem_map.mp before
        obtain rfl := m.tracks.distinct.dirs c (List.mem_append_left _ inside) id member (same.trans named.symm)
        exact (List.nodup_append.mp (Chain.nodup walk.chain)).2.2 c inside c (List.mem_cons_self ..) rfl
      have kept := List.map_congr_left fun c left => dropped.name c left
      rw [kept, ← m.dirs, List.map_append, List.map_append, List.map_cons, named, List.erase_append_right _ first,
        List.erase_cons_head]
    · refine m.contents.congr m.healthy.sound m.roles (fun c left k hk used => ?_) fun i c role file => ?_
      · rw [dropped.slots c left] at used ⊢
        exact ⟨mem_left left, rfl, by rw [dropped.pair left hk used]⟩
      · obtain ⟨kind, owned, noDir, noSuper⟩ := file_role role file
        have sound := m.healthy.sound
        refine read_dropDir_other walk (sound.role_lt owned) (sound.role_ne_zero owned noSuper)
          (sound.role_ne_one owned) fun dir => ?_
        rw [m.roles c (List.mem_append_left _ dir)] at owned
        exact noDir (Option.some.inj owned).symm
    · rw [dropDir_fdtable]
      exact m.valid i
    · rw [dropDir_fdtable]
      exact m.cursor i p cur file
  refine follows_of own' (front ++ back) ?_ (by simp) run ?_
  · rw [Call.reply, if_pos present]
    exact after
  · rw [Call.reply, if_pos present]

end StorageStack.Sfs
