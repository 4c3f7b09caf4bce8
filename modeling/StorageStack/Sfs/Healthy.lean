import StorageStack.Sfs.DirectoryCalls
import StorageStack.Sfs.Tight

/-!
# Healthy states

The invariant of the file system: memory agrees with the image, blocks are owned once, and every inode
in use has a name that ends and a first frame. The calls on directories keep it. A new directory belongs
to the link behind the last one; when a directory goes, the link before it takes over what it named.
-/

namespace StorageStack.Sfs
open Lib CString

/-- What the code relies on when it reads an inode. -/
structure Usable (inode : Block) : Prop where
  ends : 0 ∈ fileName inode
  framed : firstFrame inode ≠ 0

structure Healthy (own : Owners) (s : State) : Prop where
  coherent : Coherent s
  sound : Sound own s.disk
  usable : ∀ {i}, Owners.role own i = some .inode → Usable (s.disk.read i)

theorem Healthy.congr {own : Owners} {s s' : State} (h : Healthy own s) (sb : s'.sb = s.sb) (map : s'.freemap = s.freemap)
    (disk : s'.disk = s.disk) : Healthy own s' := by
  obtain ⟨sb', freemap', fdtable', disk'⟩ := s'
  obtain rfl : disk' = s.disk := disk
  obtain rfl : sb' = s.sb := sb
  obtain rfl : freemap' = s.freemap := map
  exact ⟨⟨h.coherent.sb, h.coherent.freemap, h.coherent.magic, h.coherent.nblocks, h.coherent.nfreemapBlocks⟩, h.sound,
    h.usable⟩

theorem Healthy.setFd {own : Owners} {s : State} (h : Healthy own s) (fd : Fin 32) (entry : Fd) :
    Healthy own (s.setFd fd entry) := h.congr rfl rfl rfl

variable {own : Owners} {s : State} {ids front back : List Nat} {name : CString} {temp v : Block}

theorem Healthy.walkable (h : Healthy own s) :
    ∃ ids, Walkable s ids ∧ ∀ id ∈ ids, Owners.role own id = some .dir := by
  obtain ⟨ids, chain, short, roles⟩ := h.sound.dirChain
  refine ⟨ids, ⟨h.coherent, chain, short, fun id m => h.sound.role_lt (roles id m),
    fun id m => h.sound.dirName_ends (roles id m), ?_, fun m => h.sound.role_ne_one (roles 1 m) rfl⟩, roles⟩
  rintro id (rfl | rfl | m)
  · exact h.sound.bit (by simp [h.sound.boot])
  · exact h.sound.mapBit
  · exact h.sound.bit (owned_of_role (roles id m))

/-! ### Links -/

/-- The location that names the directory behind `front`. -/
def linkTo (front : List Nat) : Loc :=
  match front.getLast? with
  | none => .firstDir
  | some last => .nextDir last

theorem linkTo_concat (front : List Nat) (last : Nat) : linkTo (front ++ [last]) = .nextDir last := by
  rw [linkTo, List.getLast?_concat]

@[simp] theorem kind_linkTo (front : List Nat) : (linkTo front).kind = .dir := by
  unfold linkTo
  split <;> rfl

theorem Sound.linkTo_owned {d : Image} (sound : Sound own d) {start id : Nat} (first : start = firstDir (d.read 0))
    (chain : Chain (dirNext d) start (front ++ id :: back)) (roles : ∀ c ∈ front, Owners.role own c = some .dir) :
    own id = some (linkTo front) := by
  rcases List.eq_nil_or_concat front with rfl | ⟨front, last, rfl⟩
  · obtain ⟨rfl, named, -⟩ := chain
    rw [first] at named ⊢
    exact sound.firstDir_owned named
  · rw [List.concat_eq_append] at chain roles ⊢
    rw [List.append_assoc] at chain
    obtain ⟨-, -, rfl, named, -⟩ := Chain.suffix (show Chain _ _ (front ++ last :: id :: back) from chain)
    rw [linkTo_concat]
    exact sound.nextDir_owned (roles last (by simp)) named

theorem live_linkTo {d : Image} (sound : Sound own d) (roles : ∀ c ∈ front, Owners.role own c = some .dir) :
    layout.Live own (linkTo front) := by
  rcases List.eq_nil_or_concat front with rfl | ⟨front, last, rfl⟩
  · exact live_firstDir sound
  · rw [List.concat_eq_append] at roles ⊢
    rw [linkTo_concat]
    exact live_nextDir (roles last (by simp))

theorem linkTo_host_ne {id : Nat} {d : Image} (sound : Sound own d) (role : Owners.role own id = some .dir)
    (other : id ∉ front) : (linkTo front).host ≠ id := by
  rcases List.eq_nil_or_concat front with rfl | ⟨front, last, rfl⟩
  · exact (sound.role_ne_zero role (by decide)).symm
  · rw [List.concat_eq_append] at other ⊢
    rw [linkTo_concat]
    rintro rfl
    exact other (by simp [Loc.host])

theorem read_relink {d : Image} (roles : ∀ c ∈ front, Owners.role own c = some .dir) (sound : Sound own d) (s : State)
    {b : Nat} (hb : b < 4294967296) :
    Loc.read (s.relink front b).disk (linkTo front) = b ∧
      ∀ l, layout.Live own l → l ≠ linkTo front → Loc.read (s.relink front b).disk l = Loc.read s.disk l := by
  rcases List.eq_nil_or_concat front with rfl | ⟨front, last, rfl⟩
  · rw [relink_nil]
    refine ⟨?_, fun l live other => ?_⟩
    · show ((s.disk.write 0 _).read 0).word 3 = b
      rw [Image.read_write]
      exact firstDir_setFirstDir hb
    · have small := sound.lt (owned_of_live live)
      have notSuper : l.host ≠ 0 := fun here => other (hostKind_super (live_cases live here sound.role_zero))
      rw [Loc.read, Loc.read, Image.read_write_of_ne _ _ (by omega)]
  · rw [List.concat_eq_append] at roles ⊢
    have role := roles last (by simp)
    have hl := sound.role_lt role
    rw [relink_concat, linkTo_concat]
    refine ⟨?_, fun l live other => ?_⟩
    · show ((s.disk.write last _).read last).word 0 = b
      rw [Image.read_write]
      exact nextDir_setNextDir hb
    · have small := sound.lt (owned_of_live live)
      by_cases here : l.host = last
      · rcases hostKind_dir (live_cases live here role) with ⟨dir, rfl⟩ | ⟨dir, k, _, rfl⟩
        · obtain rfl : dir = last := here
          exact absurd rfl other
        · obtain rfl : dir = last := here
          show ((s.disk.write dir _).read dir).word (31 + k) = (s.disk.read dir).word (31 + k)
          rw [Image.read_write]
          exact inodes_setNextDir
      · rw [Loc.read, Loc.read, Image.read_write_of_ne _ _ (by omega)]

theorem linkTo_last {d : Image} (chain : DirChain d ids) : (linkTo ids).read d = 0 := by
  rcases List.eq_nil_or_concat ids with rfl | ⟨front, last, rfl⟩
  · exact chain
  · rw [List.concat_eq_append] at chain ⊢
    rw [linkTo_concat]
    exact (Chain.suffix (show Chain _ _ (front ++ last :: []) from chain)).2.2

theorem Sound.relink (sound : Sound own s.disk) (roles : ∀ c ∈ front, Owners.role own c = some .dir) {b : Nat}
    (owned : own b = some (linkTo front)) : Sound own (s.relink front b).disk := by
  have hb := sound.lt (b := b) (by simp [owned])
  obtain ⟨link, others⟩ := read_relink roles sound s (show b < 4294967296 by omega)
  have map : (s.relink front b).disk.read 1 = s.disk.read 1 :=
    read_relink_of_notMem (fun c m => sound.role_lt (roles c m)) (by decide) (by decide)
      fun m => sound.role_ne_one (roles 1 m) rfl
  refine ⟨sound.boot, sound.map, by rw [map]; exact sound.mapBit, fun h => by rw [map]; exact sound.marked h, ?_⟩
  intro l live named
  by_cases here : l = linkTo front
  · rw [here, link, owned]
  · rw [others l live here] at named ⊢
    exact sound.refs l live named

/-! ### `sfs_mkdir` -/

theorem Healthy.addDir (h : Healthy own s) (walk : Walkable s ids) (roles : ∀ c ∈ ids, Owners.role own c = some .dir)
    {b : Nat} (hb : b < 4096) (clear : (s.disk.read 1).bit b = false) (last : nextDir v = 0)
    (empty : ∀ k < SFS_DB_NINODES, inodes v k = 0) :
    Healthy (Function.update own b (some (linkTo ids))) (s.addDir ids b v) := by
  have free := h.sound.free_of_clear clear
  have zero := h.sound.clear_ne_zero clear
  have one := h.sound.clear_ne_one clear
  have owned : Function.update own b (some (linkTo ids)) b = some (linkTo ids) := Function.update_self ..
  have other : ∀ c, own c ≠ none → c ≠ b := by
    rintro c used rfl
    exact used free
  have keep : ∀ c, c ≠ b → Owners.role (Function.update own b (some (linkTo ids))) c = Owners.role own c := fun c hc => by
    unfold Owners.role Scheme.role
    rw [Function.update_of_ne hc]
  have role : Owners.role (Function.update own b (some (linkTo ids))) b = some .dir := by
    rw [role_of_own owned, kind_linkTo]
  refine ⟨addDir_coherent walk hb clear, ?_, fun {i} usable => ?_⟩
  · refine ((h.sound.take hb clear (linkTo ids)).relink (fun c m => ?_) owned).write_dir role (fun named => ?_)
      (fun k hk named => absurd (empty k hk) named)
    · rw [keep c (other c (owned_of_role (roles c m)))]
      exact roles c m
    · exact absurd last named
  · have apart : i ≠ b := by
      rintro rfl
      rw [role] at usable
      cases usable
    rw [keep i apart] at usable
    have outside : i ∉ ids := fun m => by
      rw [roles i m] at usable
      cases usable
    rw [read_addDir_other walk hb (h.sound.role_lt usable) (h.sound.role_ne_zero usable (by decide))
      (h.sound.role_ne_one usable) apart outside]
    exact h.usable usable

theorem Healthy.addDir_tight (h : Healthy own s) (walk : Walkable s ids) (roles : ∀ c ∈ ids, Owners.role own c = some .dir)
    {b : Nat} (hb : b < 4096) (clear : (s.disk.read 1).bit b = false) (tight : Tight own s.disk) :
    Tight (Function.update own b (some (linkTo ids))) (s.addDir ids b v).disk := by
  have free := h.sound.free_of_clear clear
  have one := h.sound.clear_ne_one clear
  have live := live_linkTo h.sound roles
  have hosted := owned_of_live live
  have apart : ∀ c, own c ≠ none → c ≠ b := by
    rintro c used rfl
    exact used free
  obtain ⟨link, others⟩ := read_relink roles h.sound (s.take b) (show b < 4294967296 by omega)
  have outside : ∀ l, layout.Live own l → l.read (s.addDir ids b v).disk = l.read ((s.take b).relink ids b).disk := by
    intro l alive
    have used := owned_of_live alive
    rw [Loc.read, Loc.read, read_addDir_of_ne hb (h.sound.lt used) (apart _ used)]
  refine tight.extend h.sound (fun c hc set => ?_)
    (.of_hosts (fun c l owned => ?_) (fun l holds => ?_) fun c unowned used => ?_) hosted
  · rw [read_addDir_map walk hb one, Bytes.bit_setBit _ (by omega), Bool.or_eq_true, decide_eq_true_iff] at set
    rcases set with before | rfl
    · exact .inl before
    · exact .inr ⟨free, by simp⟩
  · rw [Function.update_of_ne (apart c (by simp [owned])), owned]
  · have other : l ≠ linkTo ids := by
      rintro rfl
      exact h.sound.ne_zero_of_holds holds (linkTo_last walk.chain)
    have used := owned_of_live holds.1
    rw [outside l holds.1, others l holds.1 other, Loc.read, Loc.read,
      read_take_of_ne hb (h.sound.lt used) (h.sound.ne_one used) (apart _ used)]
  · obtain rfl : c = b := by
      by_contra other
      exact used (by rw [Function.update_of_ne other, unowned])
    exact ⟨linkTo ids, Function.update_self .., live.congr (Function.update_of_ne (apart _ hosted) ..),
      (outside _ live).trans link, .root⟩

/-- What a call on directories leaves to the files: blocks that are no directories keep their owner. -/
def FilesKept (own own' : Owners) : Prop := ∀ {b l}, own b = some l → l.kind ≠ .dir → own' b = some l

theorem mkdir_healthy (temp : Block) (h : Healthy own s) (fits : name.bytes.length ≤ 507)
    (free : sfsFindDir s name = .ok 0 → 0 < (s.disk.read 1).clearCount) :
    ∃ r own' s', sfsMkdir s temp name = .ok (r, s') ∧ Healthy own' s' ∧ FilesKept own own' ∧ s'.fdtable = s.fdtable ∧
      (Tight own s.disk → Tight own' s'.disk) := by
  obtain ⟨ids, walk, roles⟩ := h.walkable
  by_cases present : ∃ id ∈ ids, nameOf s.disk id = name.bytes
  · exact ⟨-1, own, s, sfsMkdir_found walk present, h, fun owned _ => owned, rfl, id⟩
  · have absent : ∀ id ∈ ids, nameOf s.disk id ≠ name.bytes := fun id m same => present ⟨id, m, same⟩
    have missing : sfsFindDir s name = .ok 0 := by
      rcases walk.find_cases name with ⟨none, _⟩ | ⟨front, id, back, rfl, _, named⟩
      · exact none
      · exact absurd named (absent id (by simp))
    obtain ⟨b, v, hb, clear, -, filled, run⟩ := sfsMkdir_new temp walk absent (free missing) fits
    obtain ⟨v', filled', last, empty, -⟩ := newDir_ok temp fits
    obtain rfl := Except.ok.inj (filled.symm.trans filled')
    refine ⟨0, _, _, run, h.addDir walk roles hb clear last empty, fun {c l} owned _ => ?_, addDir_fdtable,
      h.addDir_tight walk roles hb clear⟩
    rw [Function.update_of_ne, owned]
    rintro rfl
    rw [h.sound.free_of_clear clear] at owned
    cases owned

/-! ### `sfs_rmdir` -/

theorem Healthy.dropDir {id : Nat} (h : Healthy own s) (walk : Walkable s (front ++ id :: back))
    (roles : ∀ c ∈ front ++ id :: back, Owners.role own c = some .dir) :
    Healthy (Scheme.bypass own id (.nextDir id) (linkTo front)) (s.dropDir front id) := by
  have role := roles id (by simp)
  have hid := h.sound.role_lt role
  have zero := h.sound.role_ne_zero role (by decide)
  have one := h.sound.role_ne_one role
  have rolesFront : ∀ c ∈ front, Owners.role own c = some .dir := fun c m => roles c (by simp [m])
  have outside : id ∉ front := fun m =>
    (List.nodup_append.mp (Chain.nodup walk.chain)).2.2 _ m _ (List.mem_cons_self ..) rfl
  have owned := h.sound.linkTo_owned rfl walk.chain rolesFront
  have map := read_dropDir_map walk
  have keep : ∀ c, c ≠ id → own c ≠ none → ((s.dropDir front id).disk.read 1).bit c = true := fun c other used => by
    rw [map, Bytes.bit_clearBit _ (by omega), decide_eq_true other, Bool.and_true]
    exact h.sound.bit used
  have fixed : ∀ c l, c ≠ id → own c = some l → l.kind ≠ .dir →
      Scheme.bypass own id (.nextDir id) (linkTo front) c = some l := fun c l other used kind => by
    rw [Scheme.bypass, if_neg other, if_neg, used]
    rintro here
    rw [used] at here
    rw [Option.some.inj here] at kind
    exact kind rfl
  obtain ⟨link, others⟩ := read_relink rolesFront h.sound (s.release id) (b := nextDir (s.disk.read id))
    (Bytes.word_lt _ 0)
  have released : ∀ l, layout.Live own l → Loc.read (s.release id).disk l = Loc.read s.disk l := fun l live => by
    have used := owned_of_live live
    rw [Loc.read, Loc.read, read_release_of_ne (h.sound.lt used) (h.sound.ne_one used)]
  refine ⟨dropDir_coherent walk, ⟨fixed 0 _ zero.symm h.sound.boot (by decide), ?_, ?_, fun {c l} used => ?_, ?_⟩,
    fun {i} usable => ?_⟩
  · rw [Scheme.bypass, if_neg one.symm, if_neg (by rw [h.sound.map]; simp), h.sound.map]
  · rw [map, Bytes.bit_clearBit _ (by omega), decide_eq_true one.symm, Bool.and_true]
    exact h.sound.mapBit
  · have other : c ≠ id := by
      rintro rfl
      rw [Scheme.bypass, if_pos rfl] at used
      cases used
    have before : own c ≠ none := by
      intro none
      rw [Scheme.bypass, if_neg other, if_neg (by rw [none]; simp), none] at used
      cases used
    exact ⟨h.sound.lt before, keep c other before⟩
  · refine Scheme.Sound.bypass h.sound.refs (live_linkTo h.sound rolesFront) (live_nextDir role) owned rfl
      (linkTo_host_ne h.sound role outside) (kind_linkTo front).symm link fun l live other _ => ?_
    exact (others l live other).trans (released l live)
  · have apart : i ≠ id := by
      rintro rfl
      unfold Owners.role Scheme.role at usable
      rw [Scheme.bypass, if_pos rfl] at usable
      cases usable
    have before : Owners.role own i = some .inode :=
      (Scheme.role_bypass (S := layout) (m := .nextDir id) (l := linkTo front) (kind_linkTo front).symm apart).symm.trans usable
    have notFront : i ∉ front := fun m => by
      rw [rolesFront i m] at before
      cases before
    rw [read_dropDir_other walk (h.sound.role_lt before) (h.sound.role_ne_zero before (by decide))
      (h.sound.role_ne_one before) notFront]
    exact h.usable before

theorem Healthy.dropDir_tight {id : Nat} (h : Healthy own s) (walk : Walkable s (front ++ id :: back))
    (roles : ∀ c ∈ front ++ id :: back, Owners.role own c = some .dir)
    (empty : ∀ k < SFS_DB_NINODES, inodes (s.disk.read id) k = 0) (tight : Tight own s.disk) :
    Tight (Scheme.bypass own id (.nextDir id) (linkTo front)) (s.dropDir front id).disk := by
  have role := roles id (by simp)
  have hid := h.sound.role_lt role
  have rolesFront : ∀ c ∈ front, Owners.role own c = some .dir := fun c m => roles c (by simp [m])
  have outside : id ∉ front := fun m =>
    (List.nodup_append.mp (Chain.nodup walk.chain)).2.2 _ m _ (List.mem_cons_self ..) rfl
  have owned := h.sound.linkTo_owned rfl walk.chain rolesFront
  obtain ⟨link, others⟩ := read_relink rolesFront h.sound (s.release id) (b := nextDir (s.disk.read id))
    (Bytes.word_lt _ 0)
  intro c hc low set
  rw [read_dropDir_map walk, Bytes.bit_clearBit _ (by omega), Bool.and_eq_true, decide_eq_true_iff] at set
  refine (tight c hc low set.1).bypass set.2 (h.sound.role_ne_zero role (by decide)).symm (live_linkTo h.sound rolesFront)
    owned ?_ rfl (linkTo_host_ne h.sound role outside) (kind_linkTo front).symm link (fun l live other _ => ?_)
      fun l holds here => ?_
  · exact (tight.holds h.sound owned (h.sound.role_ne_zero role (by decide))).2
  · have used := owned_of_live live
    rw [show l.read (s.dropDir front id).disk = l.read (s.release id).disk from others l live other, Loc.read, Loc.read,
      read_release_of_ne (h.sound.lt used) (h.sound.ne_one used)]
  · rcases hostKind_dir (live_cases holds.1 here role) with ⟨dir, rfl⟩ | ⟨dir, k, hk, rfl⟩
    · obtain rfl : dir = id := here
      rfl
    · obtain rfl : dir = id := here
      have named := h.sound.ne_zero_of_holds holds
      exact absurd (empty k hk) named

theorem rmdir_healthy (h : Healthy own s) (name : CString) :
    ∃ r own' s', sfsRmdir s name = .ok (r, s') ∧ Healthy own' s' ∧ FilesKept own own' ∧ s'.fdtable = s.fdtable ∧
      ((∀ id, sfsFindDir s name = .ok id → id ≠ 0 → ∀ k < SFS_DB_NINODES, inodes (s.disk.read id) k = 0) →
        Tight own s.disk → Tight own' s'.disk) := by
  obtain ⟨ids, walk, roles⟩ := h.walkable
  rcases walk.find_cases name with ⟨_, absent⟩ | ⟨front, id, back, rfl, found, -⟩
  · exact ⟨-1, own, s, sfsRmdir_absent walk absent, h, fun owned _ => owned, rfl, fun _ tight => tight⟩
  · refine ⟨0, _, _, sfsRmdir_found walk found, h.dropDir walk roles, fun {b l} owned kind => ?_, dropDir_fdtable ..,
      fun empty => h.dropDir_tight walk roles (empty id found (walk.ne_zero (by simp)))⟩
    have other : b ≠ id := by
      rintro rfl
      have role := roles b (by simp)
      rw [role_of_own owned] at role
      exact kind (Option.some.inj role)
    rw [Scheme.bypass, if_neg other, if_neg, owned]
    intro here
    rw [owned] at here
    rw [Option.some.inj here] at kind
    exact kind rfl

theorem lsdir_healthy (h : Healthy own s) : ∃ r, sfsLsdir s = .ok (r, s) := by
  obtain ⟨ids, walk, _⟩ := h.walkable
  exact ⟨_, sfsLsdir_ok walk⟩

theorem ls_healthy (h : Healthy own s) : ∃ r, sfsLs s = .ok (r, s) := by
  obtain ⟨ids, walk, _⟩ := h.walkable
  exact ⟨_, sfsLs_ok walk⟩

end StorageStack.Sfs
