import StorageStack.Lib.Chain
import StorageStack.Sfs.Freemap

/-!
# Directories on the disk

The directory blocks form a chain from the superblock. The loops over it are stated by the ids the chain
has; creating and removing a directory both change one link, at the head or behind some directory.
-/

namespace StorageStack.Sfs
open Lib CString

def dirNext (d : Image) (b : Nat) : Nat := nextDir (d.read b)

/-- `ids` are the directories of the image, in order. -/
def DirChain (d : Image) (ids : List Nat) : Prop := Chain (dirNext d) (firstDir (d.read 0)) ids

/-- The name a directory block holds. -/
def nameOf (d : Image) (id : Nat) : List UInt8 := scan (dirName (d.read id))

/-- Memory and image agree, and the superblock is the one `sfs_mkfs` writes. -/
structure Coherent (s : State) : Prop where
  sb : s.sb = s.disk.read 0
  freemap : s.freemap = s.disk.read 1
  magic : magic s.sb = SFS_MAGIC
  nblocks : nblocks s.sb = 1024
  nfreemapBlocks : nfreemapBlocks s.sb = 1

theorem Coherent.loaded {s : State} (h : Coherent s) : Sfs.nfreemapBlocks s.sb ≠ 0 := by
  rw [h.nfreemapBlocks]; decide

theorem Coherent.write {s : State} (h : Coherent s) {b : Nat} (hb : b < 4096) (zero : b ≠ 0) (one : b ≠ 1) (v : Block) :
    Coherent { s with disk := s.disk.write b v } :=
  ⟨h.sb.trans (Image.read_write_of_ne _ _ (by omega)).symm, h.freemap.trans (Image.read_write_of_ne _ _ (by omega)).symm,
    h.magic, h.nblocks, h.nfreemapBlocks⟩

theorem Coherent.take {s : State} (h : Coherent s) {b : Nat} (hb : b < 4096) (zero : b ≠ 0) (one : b ≠ 1) :
    Coherent (s.take b) :=
  ⟨h.sb.trans (read_take_of_ne hb (by decide) (by decide) zero.symm).symm, take_freemap hb one, h.magic, h.nblocks,
    h.nfreemapBlocks⟩

theorem Coherent.release {s : State} (h : Coherent s) (b : Nat) : Coherent (s.release b) :=
  ⟨h.sb.trans (read_release_of_ne (by decide) (by decide)).symm, (read_release_map s b).symm, h.magic, h.nblocks,
    h.nfreemapBlocks⟩

variable {d : Image} {s : State} {start fuel : Nat} {ids : List Nat} {name : CString}

/-! ### The loops -/

theorem findDirFrom_ok (chain : Chain (dirNext d) start ids) (ends : ∀ id ∈ ids, 0 ∈ dirName (d.read id))
    (enough : ids.length < fuel) :
    findDirFrom d name fuel start = .ok ((ids.find? (fun id => nameOf d id = name.bytes)).getD 0) := by
  induction ids generalizing start fuel with
  | nil =>
    obtain ⟨fuel, rfl⟩ := Nat.exists_eq_succ_of_ne_zero (by omega : fuel ≠ 0)
    rw [findDirFrom, if_pos (show start = 0 from chain)]
    rfl
  | cons id ids ih =>
    obtain ⟨fuel, rfl⟩ := Nat.exists_eq_succ_of_ne_zero (by omega : fuel ≠ 0)
    obtain ⟨rfl, named, rest⟩ := chain
    rw [findDirFrom, if_neg named]
    dsimp only
    rw [strcmpEq_ok (ends id (List.mem_cons_self ..)) name.nonzero, ok_bind, List.find?_cons]
    by_cases same : nameOf d id = name.bytes
    · simp only [nameOf] at same
      simp [nameOf, same]
    · have tail := ih rest (fun id' h' => ends id' (List.mem_cons_of_mem _ h'))
        (by simpa using enough)
      simp only [nameOf] at same
      simp only [same, decide_false, Bool.false_eq_true, if_false, nameOf]
      exact tail

theorem countDirs_ok (chain : Chain (dirNext d) start ids) (enough : ids.length < fuel) :
    countDirs d fuel start = .ok ids.length := by
  induction ids generalizing start fuel with
  | nil =>
    obtain ⟨fuel, rfl⟩ := Nat.exists_eq_succ_of_ne_zero (by omega : fuel ≠ 0)
    rw [countDirs, if_pos (show start = 0 from chain)]
    rfl
  | cons id ids ih =>
    obtain ⟨fuel, rfl⟩ := Nat.exists_eq_succ_of_ne_zero (by omega : fuel ≠ 0)
    obtain ⟨rfl, named, rest⟩ := chain
    rw [countDirs, if_neg named, show nextDir (d.read id) = dirNext d id from rfl, ih rest (by simpa using enough)]
    rfl

theorem countFiles_ok (chain : Chain (dirNext d) start ids) (enough : ids.length < fuel) :
    countFiles d fuel start = .ok (ids.map fun id => countSlots (d.read id)).sum := by
  induction ids generalizing start fuel with
  | nil =>
    obtain ⟨fuel, rfl⟩ := Nat.exists_eq_succ_of_ne_zero (by omega : fuel ≠ 0)
    rw [countFiles, if_pos (show start = 0 from chain)]
    rfl
  | cons id ids ih =>
    obtain ⟨fuel, rfl⟩ := Nat.exists_eq_succ_of_ne_zero (by omega : fuel ≠ 0)
    obtain ⟨rfl, named, rest⟩ := chain
    rw [countFiles, if_neg named, show nextDir (d.read id) = dirNext d id from rfl, ih rest (by simpa using enough)]
    simp

theorem linkLast_ok {front : List Nat} {last new : Nat} (chain : Chain (dirNext d) start (front ++ [last]))
    (enough : front.length < fuel) :
    linkLast d new fuel start = .ok (d.write last (setNextDir (d.read last) new)) := by
  induction front generalizing start fuel with
  | nil =>
    obtain ⟨fuel, rfl⟩ := Nat.exists_eq_succ_of_ne_zero (by omega : fuel ≠ 0)
    obtain ⟨rfl, named, ends⟩ := chain
    rw [linkLast, if_neg named]
    dsimp only
    rw [if_pos (show nextDir (d.read last) = 0 from ends)]
  | cons id front ih =>
    obtain ⟨fuel, rfl⟩ := Nat.exists_eq_succ_of_ne_zero (by omega : fuel ≠ 0)
    obtain ⟨rfl, named, rest⟩ := chain
    have more : dirNext d id ≠ 0 := by
      intro zero
      have := (Chain.eq_nil_iff rest).mpr zero
      simp at this
    rw [linkLast, if_neg named]
    dsimp only
    rw [if_neg (show nextDir (d.read id) ≠ 0 from more)]
    exact ih rest (by simpa using enough)

theorem unlinkDir_ok {front back : List Nat} {before id : Nat}
    (chain : Chain (dirNext d) start (front ++ before :: id :: back)) (enough : front.length + 1 < fuel) :
    unlinkDir d id fuel start = .ok (d.write before (setNextDir (d.read before) (nextDir (d.read id)))) := by
  have distinct := chain.nodup
  induction front generalizing start fuel with
  | nil =>
    obtain ⟨fuel, rfl⟩ := Nat.exists_eq_add_of_le' (by omega : 2 ≤ fuel)
    obtain ⟨rfl, -, next, -⟩ := chain
    have other : before ≠ id := by
      rintro rfl
      simp at distinct
    have link : nextDir (d.read before) = id := next.symm
    rw [unlinkDir, if_neg other]
    dsimp only
    rw [link, if_pos rfl, unlinkDir, if_pos rfl]
  | cons first front ih =>
    obtain ⟨fuel, rfl⟩ := Nat.exists_eq_succ_of_ne_zero (by omega : fuel ≠ 0)
    obtain ⟨rfl, -, rest⟩ := chain
    obtain ⟨absent, distinct⟩ := List.nodup_cons.mp distinct
    have other : first ≠ id := by
      rintro rfl
      exact absent (by simp)
    have notYet : nextDir (d.read first) ≠ id := by
      intro next
      have head : id = (front ++ before :: id :: back).head (by simp) := by
        cases front with
        | nil => exact next.symm.trans rest.1.symm
        | cons second front => exact next.symm.trans rest.1.symm
      cases front with
      | nil =>
        simp only [List.nil_append, List.head_cons] at head
        subst head
        simp at distinct
      | cons second front =>
        simp only [List.cons_append, List.head_cons] at head
        subst head
        simp at distinct
    rw [unlinkDir, if_neg other]
    dsimp only
    rw [if_neg notYet]
    exact ih rest (by simpa using enough) distinct

/-! ### Changing a link -/

/-- The superblock or the last directory of `front` gets `b` as its successor. -/
def State.relink (s : State) (front : List Nat) (b : Nat) : State :=
  match front.getLast? with
  | none =>
    let sb := setFirstDir (s.disk.read 0) b
    { s with sb, disk := s.disk.write 0 sb }
  | some last => { s with disk := s.disk.write last (setNextDir (s.disk.read last) b) }

theorem relink_nil (s : State) (b : Nat) : s.relink [] b =
    { s with sb := setFirstDir (s.disk.read 0) b, disk := s.disk.write 0 (setFirstDir (s.disk.read 0) b) } := rfl

theorem relink_concat (s : State) (front : List Nat) (last b : Nat) : s.relink (front ++ [last]) b =
    { s with disk := s.disk.write last (setNextDir (s.disk.read last) b) } := by
  rw [State.relink, List.getLast?_concat]

@[simp] theorem relink_freemap (s : State) (front : List Nat) (b : Nat) : (s.relink front b).freemap = s.freemap := by
  unfold State.relink
  split <;> rfl

@[simp] theorem relink_fdtable (s : State) (front : List Nat) (b : Nat) : (s.relink front b).fdtable = s.fdtable := by
  unfold State.relink
  split <;> rfl

theorem read_relink_of_notMem {front : List Nat} {b c : Nat} (small : ∀ id ∈ front, id < 4096) (hc : c < 4096)
    (zero : c ≠ 0) (other : c ∉ front) : (s.relink front b).disk.read c = s.disk.read c := by
  rcases List.eq_nil_or_concat front with rfl | ⟨front, last, rfl⟩
  · rw [relink_nil]
    exact Image.read_write_of_ne _ _ (by omega)
  · rw [List.concat_eq_append] at small other ⊢
    have hl := small last (by simp)
    have different : c ≠ last := by
      rintro rfl
      simp at other
    rw [relink_concat]
    exact Image.read_write_of_ne _ _ (by omega)

theorem read_relink_dir {front : List Nat} {b c : Nat} (small : ∀ id ∈ front, id < 4096) (hc : c < 4096)
    (zero : c ≠ 0) : (s.relink front b).disk.read c = s.disk.read c ∨
      (s.relink front b).disk.read c = setNextDir (s.disk.read c) b := by
  rcases List.eq_nil_or_concat front with rfl | ⟨front, last, rfl⟩
  · rw [relink_nil]
    exact Or.inl (Image.read_write_of_ne _ _ (by omega))
  · rw [List.concat_eq_append] at small ⊢
    have hl := small last (by simp)
    rw [relink_concat]
    by_cases here : c = last
    · subst here
      exact Or.inr (Image.read_write _ _ _)
    · exact Or.inl (Image.read_write_of_ne _ _ (by omega))

theorem Coherent.relink (h : Coherent s) {front : List Nat} {b : Nat} (small : ∀ id ∈ front, id < 4096)
    (zero : 0 ∉ front) (one : 1 ∉ front) : Coherent (s.relink front b) := by
  rcases List.eq_nil_or_concat front with rfl | ⟨front, last, rfl⟩
  · rw [relink_nil]
    have map : (s.disk.write 0 (setFirstDir (s.disk.read 0) b)).read 1 = s.disk.read 1 :=
      Image.read_write_of_ne _ _ (by decide)
    rw [← h.sb] at map ⊢
    exact ⟨(Image.read_write _ _ _).symm, h.freemap.trans map.symm, magic_setFirstDir.trans h.magic,
      nblocks_setFirstDir.trans h.nblocks, nfreemapBlocks_setFirstDir.trans h.nfreemapBlocks⟩
  · rw [List.concat_eq_append] at small zero one ⊢
    have hl := small last (by simp)
    have notZero : last ≠ 0 := by rintro rfl; simp at zero
    have notOne : last ≠ 1 := by rintro rfl; simp at one
    rw [relink_concat]
    exact h.write hl notZero notOne _

theorem relink_chain {front old back : List Nat} {b : Nat} (hb : b < 4294967296)
    (chain : DirChain s.disk (front ++ old)) (small : ∀ id ∈ front, id < 4096) (smallBack : ∀ id ∈ back, id < 4096)
    (rest : Chain (dirNext s.disk) b back) (apart : ∀ id ∈ back, id ∉ front) :
    DirChain (s.relink front b).disk (front ++ back) := by
  have kept : ∀ c < 4096, c ≠ 0 → c ∉ front → dirNext (s.relink front b).disk c = dirNext s.disk c :=
    fun c hc zero other => by rw [dirNext, dirNext, read_relink_of_notMem small hc zero other]
  have rest' : Chain (dirNext (s.relink front b).disk) b back :=
    rest.congr fun id h => kept id (smallBack id h) (rest.ne_zero h) (apart id h)
  rcases List.eq_nil_or_concat front with rfl | ⟨front, last, rfl⟩
  · have head : firstDir ((s.relink [] b).disk.read 0) = b := by
      rw [relink_nil, Image.read_write, firstDir_setFirstDir hb]
    rw [DirChain, head]
    exact rest'
  · rw [List.concat_eq_append, List.append_assoc] at chain
    have distinct := chain.nodup
    have hl := small last (by simp)
    have notZero : last ≠ 0 := chain.ne_zero (by simp)
    rw [List.concat_eq_append] at kept rest' small ⊢
    have link : dirNext (s.relink (front ++ [last]) b).disk last = b := by
      rw [dirNext, relink_concat, Image.read_write, nextDir_setNextDir hb]
    have head : firstDir ((s.relink (front ++ [last]) b).disk.read 0) = firstDir (s.disk.read 0) := by
      rw [relink_concat, Image.read_write_of_ne _ _ (by omega)]
    rw [DirChain, head, List.append_assoc]
    refine Chain.relink chain (fun id h => ?_) (by rw [link]; exact rest')
    have different : id ≠ last := by
      rintro rfl
      exact (List.nodup_append.mp distinct).2.2 _ h _ (by simp) rfl
    have hid := small id (by simp [h])
    rw [dirNext, dirNext, relink_concat, Image.read_write_of_ne _ _ (by omega)]

end StorageStack.Sfs
