import StorageStack.Sfs.Directory

/-!
# Creating, removing and counting directories

What `sfs_mkdir`, `sfs_rmdir` and `sfs_lsdir` do to a state in which the directory chain can be walked:
either nothing, or one allocation or release and one changed link.
-/

namespace StorageStack.Sfs
open Lib CString

/-- The directory chain ends, its names end, and its blocks are in use. -/
structure Walkable (s : State) (ids : List Nat) : Prop where
  coherent : Coherent s
  chain : DirChain s.disk ids
  short : ids.length ≤ 4096
  small : ∀ id ∈ ids, id < 4096
  ends : ∀ id ∈ ids, 0 ∈ dirName (s.disk.read id)
  used : ∀ id, id = 0 ∨ id = 1 ∨ id ∈ ids → (s.disk.read 1).bit id = true
  map : 1 ∉ ids

variable {s : State} {ids : List Nat} {name : CString} {temp v : Block}

theorem Walkable.ne_zero (h : Walkable s ids) {id : Nat} (member : id ∈ ids) : id ≠ 0 := Chain.ne_zero h.chain member

theorem Walkable.ne_one (h : Walkable s ids) {id : Nat} (member : id ∈ ids) : id ≠ 1 := by
  rintro rfl
  exact h.map member

theorem Walkable.findDir_eq (h : Walkable s ids) (name : CString) :
    sfsFindDir s name = .ok ((ids.find? (fun id => nameOf s.disk id = name.bytes)).getD 0) := by
  rw [sfsFindDir, h.coherent.sb]
  exact findDirFrom_ok h.chain h.ends (Nat.lt_of_le_of_lt h.short (by decide))

/-- The first directory with the name is found; 0 stands for none. -/
theorem Walkable.find_cases (h : Walkable s ids) (name : CString) :
    (sfsFindDir s name = .ok 0 ∧ ∀ id ∈ ids, nameOf s.disk id ≠ name.bytes) ∨
      ∃ front id back, ids = front ++ id :: back ∧ sfsFindDir s name = .ok id ∧ nameOf s.disk id = name.bytes := by
  rw [h.findDir_eq]
  cases found : ids.find? (fun id => nameOf s.disk id = name.bytes) with
  | none =>
    refine Or.inl ⟨rfl, fun id member same => ?_⟩
    simpa [same] using List.find?_eq_none.mp found id member
  | some id =>
    obtain ⟨front, back, same⟩ := List.append_of_mem (List.mem_of_find?_eq_some found)
    exact Or.inr ⟨front, id, back, same, rfl, by simpa using List.find?_some found⟩

/-! ### `sfs_mkdir` -/

theorem newDir_ok (temp : Block) (fits : name.bytes.length ≤ 507) :
    ∃ v, newDir temp name = .ok v ∧ nextDir v = 0 ∧ (∀ k < SFS_DB_NINODES, inodes v k = 0) ∧
      (name.bytes.length ≤ 119 → ∃ rest, dirName v = name.bytes ++ 0 :: rest) := by
  have room : 4 + name.bytes.length + 1 ≤ 512 := by omega
  have size : (name.bytes ++ [0]).length = name.bytes.length + 1 := List.length_append
  refine ⟨_, by rw [newDir, strcpy, if_pos room]; rfl, ?_, fun k hk => ?_, fun short => ?_⟩
  · rw [nextDir, Bytes.word_patch_of_outside _ (Or.inl (by decide)), Bytes.word_patch_of_outside _ (Or.inl (by decide))]
    exact nextDir_setNextDir (by decide)
  · unfold SFS_DB_NINODES at hk
    exact Bytes.word_patch_zeros _ (by omega)
  · rw [Bytes.patch_comm _ (by omega), dirName, Bytes.toList_drop_patch _ (by omega), List.append_assoc]
    exact ⟨_, rfl⟩

/-- The state after block `b` was added behind the directories `ids` with the contents `v`. -/
def State.addDir (s : State) (ids : List Nat) (b : Nat) (v : Block) : State :=
  let s := (s.take b).relink ids b
  { s with disk := s.disk.write b v }

theorem linkDir_ok {b : Nat} (sb : s.sb = s.disk.read 0) (chain : DirChain s.disk ids) (short : ids.length ≤ 4096) :
    linkDir s b = .ok (s.relink ids b) := by
  rcases List.eq_nil_or_concat ids with rfl | ⟨front, last, rfl⟩
  · have empty : firstDir (s.disk.read 0) = 0 := chain
    rw [linkDir, sb, if_pos empty, relink_nil]
  · rw [List.concat_eq_append] at chain short ⊢
    have some : firstDir (s.disk.read 0) ≠ 0 := by
      intro zero
      have := (Chain.eq_nil_iff chain).mpr zero
      simp at this
    rw [linkDir, sb, if_neg some, linkLast_ok chain, relink_concat]
    · rw [ok_bind, sb]
    · rw [List.length_append] at short
      exact Nat.lt_of_le_of_lt (Nat.le_of_succ_le short) (by decide)

theorem sfsMkdir_found (h : Walkable s ids) (present : ∃ id ∈ ids, nameOf s.disk id = name.bytes) :
    sfsMkdir s temp name = .ok (-1, s) := by
  rcases h.find_cases name with ⟨_, absent⟩ | ⟨front, id, back, same, found, _⟩
  · obtain ⟨id, member, same⟩ := present
    exact absurd same (absent id member)
  · have named : id ≠ 0 := h.ne_zero (by rw [same]; simp)
    rw [sfsMkdir, found, ok_bind, if_pos named]

theorem take_walkable (h : Walkable s ids) {b : Nat} (hb : b < 4096) (clear : (s.disk.read 1).bit b = false) :
    Walkable (s.take b) ids ∧ b ∉ ids ∧ b ≠ 0 ∧ b ≠ 1 := by
  have apart : ∀ id, id = 0 ∨ id = 1 ∨ id ∈ ids → id ≠ b := by
    rintro id used rfl
    simp [h.used id used] at clear
  have zero := (apart 0 (by simp)).symm
  have one := (apart 1 (by simp)).symm
  have kept : ∀ c < 4096, c ≠ 1 → c ≠ b → (s.take b).disk.read c = s.disk.read c :=
    fun c hc map other => read_take_of_ne hb hc map other
  have keptId : ∀ id ∈ ids, (s.take b).disk.read id = s.disk.read id :=
    fun id member => kept id (h.small id member) (h.ne_one member) (apart id (by simp [member]))
  have sb := kept 0 (by decide) (by decide) zero.symm
  refine ⟨⟨h.coherent.take hb zero one, ?_, h.short, h.small, ?_, ?_, h.map⟩, fun member => apart b (by simp [member]) rfl,
    zero, one⟩
  · rw [DirChain, sb]
    exact Chain.congr h.chain fun id member => by rw [dirNext, dirNext, keptId id member]
  · intro id member
    rw [keptId id member]
    exact h.ends id member
  · intro id used
    rw [read_take_map hb one]
    exact Bytes.bit_setBit_of_bit _ (by omega) (h.used id used)

/-- While a block is free there are fewer directories than blocks. -/
theorem Walkable.length_lt (h : Walkable s ids) {b : Nat} (hb : b < 4096) (clear : (s.disk.read 1).bit b = false) :
    ids.length < 4096 := by
  obtain ⟨-, outside, -, -⟩ := take_walkable h hb clear
  have inside : b :: ids ⊆ List.range 4096 := fun id m => by
    rcases List.mem_cons.mp m with rfl | old
    · exact List.mem_range.mpr hb
    · exact List.mem_range.mpr (h.small id old)
  have few := (List.subperm_of_subset (List.nodup_cons.mpr ⟨outside, Chain.nodup h.chain⟩) inside).length_le
  rw [List.length_cons, List.length_range] at few
  exact few

theorem sfsMkdir_new (temp : Block) (h : Walkable s ids) (absent : ∀ id ∈ ids, nameOf s.disk id ≠ name.bytes)
    (free : 0 < (s.disk.read 1).clearCount) (fits : name.bytes.length ≤ 507) :
    ∃ b v, b < 4096 ∧ (s.disk.read 1).bit b = false ∧ (∀ c < b, (s.disk.read 1).bit c = true) ∧
      newDir temp name = .ok v ∧ sfsMkdir s temp name = .ok (0, s.addDir ids b v) := by
  obtain ⟨b, alloc, hb, clear, least⟩ := sfsAllocBlock_ok h.coherent.loaded free
  obtain ⟨v, filled, _⟩ := newDir_ok temp fits
  obtain ⟨walk, _⟩ := take_walkable h hb clear
  have missing : sfsFindDir s name = .ok 0 := by
    rcases h.find_cases name with ⟨none, _⟩ | ⟨front, id, back, same, _, named⟩
    · exact none
    · exact absurd named (absent id (by rw [same]; simp))
  refine ⟨b, v, hb, clear, least, filled, ?_⟩
  rw [sfsMkdir, missing, ok_bind, if_neg (by simp), alloc, ok_bind]
  dsimp only
  rw [linkDir_ok walk.coherent.sb walk.chain walk.short, ok_bind, filled, ok_bind]
  rfl

section Added
variable {b : Nat}

theorem read_addDir_self : (s.addDir ids b v).disk.read b = v := Image.read_write _ _ _

theorem read_addDir_of_ne {c : Nat} (hb : b < 4096) (hc : c < 4096) (other : c ≠ b) :
    (s.addDir ids b v).disk.read c = ((s.take b).relink ids b).disk.read c := Image.read_write_of_ne _ _ (by omega)

@[simp] theorem addDir_fdtable : (s.addDir ids b v).fdtable = s.fdtable := by
  simp [State.addDir]

theorem read_addDir_other (h : Walkable s ids) {c : Nat} (hb : b < 4096) (hc : c < 4096) (zero : c ≠ 0) (one : c ≠ 1)
    (other : c ≠ b) (outside : c ∉ ids) : (s.addDir ids b v).disk.read c = s.disk.read c := by
  rw [read_addDir_of_ne hb hc other, read_relink_of_notMem h.small hc zero outside, read_take_of_ne hb hc one other]

theorem read_addDir_map (h : Walkable s ids) (hb : b < 4096) (one : b ≠ 1) :
    (s.addDir ids b v).disk.read 1 = (s.disk.read 1).setBit b := by
  rw [read_addDir_of_ne hb (by decide) one.symm, read_relink_of_notMem h.small (by decide) (by decide) h.map,
    read_take_map hb one]

theorem read_addDir_dir (h : Walkable s ids) (hb : b < 4096) (clear : (s.disk.read 1).bit b = false) {id : Nat}
    (member : id ∈ ids) : (s.addDir ids b v).disk.read id = s.disk.read id ∨
      (s.addDir ids b v).disk.read id = setNextDir (s.disk.read id) b := by
  obtain ⟨_, outside, _, _⟩ := take_walkable h hb clear
  have hid := h.small id member
  have other : id ≠ b := by rintro rfl; exact outside member
  have relinked := @read_relink_dir (s.take b) ids b id h.small hid (h.ne_zero member)
  rw [read_take_of_ne hb hid (h.ne_one member) other] at relinked
  rw [read_addDir_of_ne hb hid other]
  exact relinked

theorem addDir_coherent (h : Walkable s ids) (hb : b < 4096) (clear : (s.disk.read 1).bit b = false) :
    Coherent (s.addDir ids b v) := by
  obtain ⟨walk, _, zero, one⟩ := take_walkable h hb clear
  exact (walk.coherent.relink (b := b) h.small (fun m => h.ne_zero m rfl) h.map).write hb zero one v

theorem addDir_walkable (h : Walkable s ids) (hb : b < 4096) (clear : (s.disk.read 1).bit b = false)
    (short : ids.length < 4096) (ends : 0 ∈ dirName v) (last : nextDir v = 0) :
    Walkable (s.addDir ids b v) (ids ++ [b]) := by
  obtain ⟨walk, outside, zero, one⟩ := take_walkable h hb clear
  have keep : ∀ c < 4096, c ≠ b → (s.addDir ids b v).disk.read c = ((s.take b).relink ids b).disk.read c :=
    fun c hc other => read_addDir_of_ne hb hc other
  refine ⟨addDir_coherent h hb clear, ?_,
    by rw [List.length_append]; exact short, ?_, ?_, ?_, ?_⟩
  · have endOfNew : dirNext (s.take b).disk b = 0 := by
      rw [dirNext, read_take_self]
      exact Bytes.word_zero 0
    have linked := @relink_chain (s.take b) _ [] [b] _ (by omega : b < 4294967296)
      (by rw [List.append_nil]; exact walk.chain) h.small (by simpa using hb) ⟨rfl, zero, endOfNew⟩
      (by simpa using outside)
    unfold DirChain at linked ⊢
    rw [keep 0 (by decide) zero.symm]
    apply Chain.congr linked
    intro id member
    rcases List.mem_append.mp member with old | new
    · have other : id ≠ b := by rintro rfl; exact outside old
      rw [dirNext, dirNext, keep id (h.small id old) other]
    · obtain rfl : id = b := by simpa using new
      have relinked : ((s.take id).relink ids id).disk.read id = (s.take id).disk.read id :=
        read_relink_of_notMem h.small hb zero outside
      rw [dirNext, dirNext, read_addDir_self, relinked, read_take_self, last]
      exact (Bytes.word_zero 0).symm
  · intro id member
    rcases List.mem_append.mp member with old | new
    · exact h.small id old
    · obtain rfl : id = b := by simpa using new
      exact hb
  · intro id member
    rcases List.mem_append.mp member with old | new
    · rcases read_addDir_dir (v := v) h hb clear old with same | linked
      · rw [same]; exact h.ends id old
      · rw [linked, dirName_setNextDir]; exact h.ends id old
    · obtain rfl : id = b := by simpa using new
      rw [read_addDir_self]; exact ends
  · intro id used
    rw [read_addDir_map h hb one, Bytes.bit_setBit _ (by omega)]
    by_cases new : id = b
    · simp [new]
    · rw [h.used id (by simpa [new] using used)]; rfl
  · intro member
    rcases List.mem_append.mp member with old | new
    · exact h.map old
    · exact one (by simpa using Eq.symm (List.mem_singleton.mp new))

end Added

/-! ### `sfs_rmdir` -/

/-- The state after the directory `id` behind `front` was removed. -/
def State.dropDir (s : State) (front : List Nat) (id : Nat) : State :=
  (s.release id).relink front (nextDir (s.disk.read id))

@[simp] theorem dropDir_fdtable (front : List Nat) (id : Nat) : (s.dropDir front id).fdtable = s.fdtable := by
  simp [State.dropDir]

theorem sfsRmdir_absent (h : Walkable s ids) (absent : ∀ id ∈ ids, nameOf s.disk id ≠ name.bytes) :
    sfsRmdir s name = .ok (-1, s) := by
  rcases h.find_cases name with ⟨none, _⟩ | ⟨front, id, back, same, _, named⟩
  · rw [sfsRmdir, none, ok_bind, if_pos (Or.inl rfl)]
  · exact absurd named (absent id (by rw [same]; simp))

section Removed
variable {front back : List Nat} {id : Nat}

theorem release_chain (h : Walkable s ids) (id : Nat) : DirChain (s.release id).disk ids := by
  have keep : ∀ c < 4096, c ≠ 1 → (s.release id).disk.read c = s.disk.read c := fun c hc map => read_release_of_ne hc map
  rw [DirChain, keep 0 (by decide) (by decide)]
  exact Chain.congr h.chain fun c member => by rw [dirNext, dirNext, keep c (h.small c member) (h.ne_one member)]

theorem sfsRmdir_found (h : Walkable s (front ++ id :: back)) (found : sfsFindDir s name = .ok id) :
    sfsRmdir s name = .ok (0, s.dropDir front id) := by
  have member : id ∈ front ++ id :: back := by simp
  have hid := h.small id member
  have keep : ∀ c < 4096, c ≠ 1 → (s.release id).disk.read c = s.disk.read c := fun c hc map => read_release_of_ne hc map
  have chain := release_chain h id
  have some : firstDir s.sb ≠ 0 := by
    rw [h.coherent.sb]
    intro zero
    have := (Chain.eq_nil_iff h.chain).mpr zero
    simp at this
  have cond : ¬ (id = 0 ∨ firstDir s.sb = 0) := not_or.mpr ⟨h.ne_zero member, some⟩
  rw [sfsRmdir, found, ok_bind, if_neg cond, sfsFreeBlock_ok s hid, ok_bind]
  dsimp only
  rw [release_sb]
  rcases List.eq_nil_or_concat front with rfl | ⟨front, before, rfl⟩
  · have head : firstDir s.sb = id := by
      rw [h.coherent.sb]
      exact h.chain.1.symm
    rw [if_pos head, head, keep id hid (h.ne_one member), State.dropDir, relink_nil,
      show steps = 4294967295 + 1 from rfl, unlinkDir, if_pos rfl]
    rfl
  · rw [List.concat_eq_append] at *
    have shape : front ++ [before] ++ id :: back = front ++ before :: id :: back := by simp
    rw [shape] at chain
    have distinct := Chain.nodup chain
    have head : firstDir s.sb ≠ id := by
      intro same
      have first : firstDir (s.disk.read 0) = id := by rw [← h.coherent.sb]; exact same
      rw [DirChain, keep 0 (by decide) (by decide), first] at chain
      cases front with
      | nil =>
        obtain rfl : before = id := chain.1
        simp at distinct
      | cons c front =>
        obtain rfl : c = id := chain.1
        simp at distinct
    have short : front.length + 1 < steps := by
      have := h.short
      simp only [List.length_append, List.length_cons, List.length_nil] at this
      unfold steps
      omega
    have start : firstDir s.sb = firstDir ((s.release id).disk.read 0) := by
      rw [keep 0 (by decide) (by decide), h.coherent.sb]
    rw [if_neg head, start, unlinkDir_ok chain short, State.dropDir, relink_concat, keep id hid (h.ne_one member)]
    rfl

theorem read_dropDir_map (h : Walkable s (front ++ id :: back)) :
    (s.dropDir front id).disk.read 1 = (s.disk.read 1).clearBit id := by
  rw [State.dropDir, read_relink_of_notMem (fun c member => h.small c (by simp [member])) (by decide) (by decide)
    (fun member => h.map (by simp [member])), read_release_map]

theorem read_dropDir_other (h : Walkable s (front ++ id :: back)) {c : Nat} (hc : c < 4096) (zero : c ≠ 0) (one : c ≠ 1)
    (outside : c ∉ front) : (s.dropDir front id).disk.read c = s.disk.read c := by
  rw [State.dropDir, read_relink_of_notMem (fun c member => h.small c (by simp [member])) hc zero outside,
    read_release_of_ne hc one]

theorem read_dropDir_dir (h : Walkable s (front ++ id :: back)) {c : Nat} (hc : c < 4096) (zero : c ≠ 0) (one : c ≠ 1) :
    (s.dropDir front id).disk.read c = s.disk.read c ∨
      (s.dropDir front id).disk.read c = setNextDir (s.disk.read c) (nextDir (s.disk.read id)) := by
  rw [State.dropDir, ← @read_release_of_ne s id c hc one]
  exact read_relink_dir (fun c member => h.small c (by simp [member])) hc zero

theorem dropDir_coherent (h : Walkable s (front ++ id :: back)) : Coherent (s.dropDir front id) :=
  (h.coherent.release id).relink (fun c m => h.small c (by simp [m])) (fun m => @Walkable.ne_zero _ _ h 0 (by simp [m]) rfl)
    (fun m => h.map (by simp [m]))

theorem dropDir_walkable (h : Walkable s (front ++ id :: back)) : Walkable (s.dropDir front id) (front ++ back) := by
  have member : id ∈ front ++ id :: back := by simp
  have hid := h.small id member
  have distinct := Chain.nodup h.chain
  have zero := h.ne_zero member
  have one := h.ne_one member
  have smallFront : ∀ c ∈ front, c < 4096 := fun c m => h.small c (by simp [m])
  have within : ∀ c ∈ front ++ back, c ∈ front ++ id :: back := by
    intro c m
    rcases List.mem_append.mp m with m | m
    · simp [m]
    · simp [m]
  refine ⟨dropDir_coherent h, ?_, ?_, fun c m => h.small c (within c m), ?_, ?_, fun m => h.map (within 1 m)⟩
  · have chain := release_chain h id
    have suffix := Chain.suffix (show Chain _ _ (front ++ id :: back) from chain)
    have next : dirNext (s.release id).disk id = nextDir (s.disk.read id) := by
      rw [dirNext, read_release_of_ne hid one]
    have rest : Chain (dirNext (s.release id).disk) (nextDir (s.disk.read id)) back := next ▸ suffix.2.2
    refine relink_chain (Bytes.word_lt _ 0) chain smallFront (fun c m => h.small c (by simp [m])) rest
      (fun c m m' => ?_)
    exact (List.nodup_append.mp distinct).2.2 c m' c (List.mem_cons_of_mem _ m) rfl
  · have := h.short
    simp only [List.length_append, List.length_cons] at this ⊢
    omega
  · intro c m
    rcases read_dropDir_dir h (h.small c (within c m)) (h.ne_zero (within c m)) (h.ne_one (within c m)) with same | linked
    · rw [same]; exact h.ends c (within c m)
    · rw [linked, dirName_setNextDir]; exact h.ends c (within c m)
  · intro c used
    have other : c ≠ id := by
      rintro rfl
      rcases used with rfl | rfl | m
      · exact zero rfl
      · exact one rfl
      · rcases List.mem_append.mp m with m | m
        · exact (List.nodup_append.mp distinct).2.2 _ m _ (List.mem_cons_self ..) rfl
        · exact (List.nodup_cons.mp (List.nodup_append.mp distinct).2.1).1 m
    rw [read_dropDir_map h, Bytes.bit_clearBit _ (by omega), decide_eq_true other, Bool.and_true]
    apply h.used c
    rcases used with rfl | rfl | m
    · exact Or.inl rfl
    · exact Or.inr (Or.inl rfl)
    · exact Or.inr (Or.inr (within c m))

end Removed

/-! ### `sfs_lsdir` and `sfs_ls` -/

theorem sfsLsdir_ok (h : Walkable s ids) : sfsLsdir s = .ok ((ids.length : Nat), s) := by
  have reload : { s with sb := s.disk.read 0 } = s := by rw [← h.coherent.sb]
  rw [sfsLsdir]
  dsimp only
  rw [countDirs_ok h.chain (Nat.lt_of_le_of_lt h.short (by decide)), ok_bind, reload]

theorem sfsLs_ok (h : Walkable s ids) :
    sfsLs s = .ok (((ids.map fun id => countSlots (s.disk.read id)).sum : Nat), s) := by
  have reload : { s with sb := s.disk.read 0 } = s := by rw [← h.coherent.sb]
  rw [sfsLs]
  dsimp only
  rw [countFiles_ok h.chain (Nat.lt_of_le_of_lt h.short (by decide)), ok_bind, reload]

end StorageStack.Sfs
