import StorageStack.Sfs.DirectoryCalls

/-!
# Directories as a list of names

The abstract directory tree is a list of distinct names. `Refines` relates it to a state: the chain has
one block per name in the same order, and the freemap marks those blocks and the first two. Every call
keeps the relation, so any run of calls returns what the list returns.
-/

namespace StorageStack.Sfs
open Lib CString

inductive DirOp where
  | mkdir (temp : Block) (name : CString)
  | rmdir (name : CString)
  | lsdir

def DirOp.run (s : State) : DirOp → Outcome (Int × State)
  | mkdir temp name => sfsMkdir s temp name
  | rmdir name => sfsRmdir s name
  | lsdir => sfsLsdir s

def DirOp.Fits : DirOp → Prop
  | mkdir _ name => name.bytes.length ≤ 119
  | rmdir name => name.bytes.length ≤ 119
  | lsdir => True

def runDirs : List DirOp → State → Outcome (List Int × State)
  | [], s => .ok ([], s)
  | op :: ops, s => do
    let (r, s) ← op.run s
    let (rs, s) ← runDirs ops s
    .ok (r :: rs, s)

def start (s : State) : State := sfsPrintInfo (sfsMkfs s)

/-! ### The list of names -/

def DirOp.onNames (names : List (List UInt8)) : DirOp → Int × List (List UInt8)
  | mkdir _ name => if name.bytes ∈ names then (-1, names) else (0, names ++ [name.bytes])
  | rmdir name => if name.bytes ∈ names then (0, names.erase name.bytes) else (-1, names)
  | lsdir => (names.length, names)

def onNames : List DirOp → List (List UInt8) → List Int × List (List UInt8)
  | [], names => ([], names)
  | op :: ops, names =>
    let (r, names) := op.onNames names
    let (rs, names) := onNames ops names
    (r :: rs, names)

/-! ### The relation -/

/-- The directories of the state, each with its block, are `entries`. -/
structure Refines (s : State) (entries : List (Nat × List UInt8)) : Prop where
  walk : Walkable s (entries.map Prod.fst)
  names : ∀ e ∈ entries, nameOf s.disk e.1 = e.2
  distinct : (entries.map Prod.snd).Nodup
  bits : ∀ b < 4096, (s.disk.read 1).bit b = true ↔ b = 0 ∨ b = 1 ∨ b ∈ entries.map Prod.fst

variable {s : State} {entries : List (Nat × List UInt8)}

theorem formatted_words (sb : Block) : magic (formatted sb) = SFS_MAGIC ∧ nblocks (formatted sb) = 1024 ∧
    nfreemapBlocks (formatted sb) = 1 ∧ firstDir (formatted sb) = 0 := by
  have first : SFS_MAGIC < 4294967296 := by decide
  unfold magic nblocks nfreemapBlocks firstDir formatted
  refine ⟨?_, ?_, ?_, Bytes.word_setWord_self _ (by decide) (by decide)⟩
  · rw [Bytes.word_setWord_of_ne _ (by decide), Bytes.word_setWord_of_ne _ (by decide),
      Bytes.word_setWord_of_ne _ (by decide), Bytes.word_setWord_self _ (by decide) first]
  · rw [Bytes.word_setWord_of_ne _ (by decide), Bytes.word_setWord_of_ne _ (by decide),
      Bytes.word_setWord_self _ (by decide) (by decide)]
  · rw [Bytes.word_setWord_of_ne _ (by decide), Bytes.word_setWord_self _ (by decide) (by decide)]

theorem map_start (s : State) : (start s).disk.read 1 = Bytes.zero.setWord 0 3 := Image.read_write _ _ _

theorem sb_start (s : State) : (start s).sb = formatted s.sb := by
  show (((s.disk.write 0 (formatted s.sb)).write (nblocks (formatted s.sb)) .zero).write 1 _).read 0 = _
  rw [(formatted_words s.sb).2.1, Image.read_write_of_ne _ _ (by decide), Image.read_write_of_ne _ _ (by decide),
    Image.read_write]

theorem bit_start (s : State) (b : Nat) : ((start s).disk.read 1).bit b = decide (b = 0 ∨ b = 1) := by
  rw [map_start, Bytes.bit, word_setWord (by decide) (by decide)]
  by_cases first : b / 32 = 0
  · rw [if_pos first, show (3 : Nat) = 2 ^ 2 - 1 from rfl, Nat.testBit_two_pow_sub_one]
    exact decide_eq_decide.mpr (by omega)
  · rw [if_neg first, Bytes.word_zero, Nat.zero_testBit]
    exact (decide_eq_false (by omega)).symm

theorem coherent_start (s : State) : Coherent (start s) := by
  obtain ⟨h₀, h₁, h₂, _⟩ := formatted_words s.sb
  rw [← sb_start] at h₀ h₁ h₂
  exact ⟨rfl, (map_start s).symm, h₀, h₁, h₂⟩

theorem walkable_start (s : State) : Walkable (start s) [] := by
  have empty : firstDir ((start s).disk.read 0) = 0 := by
    rw [← (coherent_start s).sb, sb_start, (formatted_words s.sb).2.2.2]
  refine ⟨coherent_start s, empty, by simp, by simp, by simp, fun id used => ?_, by simp⟩
  rw [bit_start]
  simpa using used

theorem refines_start (s : State) : Refines (start s) [] :=
  ⟨walkable_start s, by simp, by simp, fun b _ => by rw [bit_start]; simp⟩

/-! ### One call -/

/-- What one call keeps: the directories that survive keep block and name, and a refused call leaves
the image. -/
structure DirStep (s s' : State) (entries entries' : List (Nat × List UInt8)) (r : Int) : Prop where
  refines : Refines s' entries'
  survivors : ∀ e ∈ entries, e.2 ∈ entries'.map Prod.snd → e ∈ entries'
  refused : r = -1 → s'.disk = s.disk

theorem DirStep.same (h : Refines s entries) (r : Int) : DirStep s s entries entries r :=
  ⟨h, fun _ member _ => member, fun _ => rfl⟩

theorem name_mem_iff (h : Refines s entries) (name : List UInt8) :
    name ∈ entries.map Prod.snd ↔ ∃ id ∈ entries.map Prod.fst, nameOf s.disk id = name := by
  simp only [List.mem_map]
  constructor
  · rintro ⟨e, member, rfl⟩
    exact ⟨e.1, ⟨e, member, rfl⟩, h.names e member⟩
  · rintro ⟨_, ⟨e, member, rfl⟩, same⟩
    exact ⟨e, member, (h.names e member).symm.trans same⟩

theorem mkdir_refines (h : Refines s entries) (temp : Block) (name : CString) (fits : name.bytes.length ≤ 119)
    (room : name.bytes ∉ entries.map Prod.snd → entries.length < 1022) :
    ∃ s' entries', sfsMkdir s temp name = .ok (((DirOp.mkdir temp name).onNames (entries.map Prod.snd)).1, s') ∧
      entries'.map Prod.snd = ((DirOp.mkdir temp name).onNames (entries.map Prod.snd)).2 ∧
      DirStep s s' entries entries' ((DirOp.mkdir temp name).onNames (entries.map Prod.snd)).1 := by
  by_cases present : name.bytes ∈ entries.map Prod.snd
  · rw [DirOp.onNames, if_pos present]
    exact ⟨s, entries, sfsMkdir_found h.walk ((name_mem_iff h _).mp present), rfl, DirStep.same h _⟩
  · have few := room present
    have absent : ∀ id ∈ entries.map Prod.fst, nameOf s.disk id ≠ name.bytes :=
      fun id member same => present ((name_mem_iff h _).mpr ⟨id, member, same⟩)
    have free : 0 < (s.disk.read 1).clearCount := by
      refine @Bytes.clearCount_pos_of_bits 512 (s.disk.read 1) (0 :: 1 :: entries.map Prod.fst) (fun b hb set => ?_) ?_
      · have used := (h.bits b hb).mp set
        simpa only [List.mem_cons] using used
      · simp only [List.length_cons, List.length_map]
        omega
    obtain ⟨b, v, hb, clear, -, filled, run⟩ := sfsMkdir_new temp h.walk absent free (by omega)
    obtain ⟨_, filled', last, _, holds⟩ := @newDir_ok name temp (by omega)
    obtain rfl := Except.ok.inj (filled.symm.trans filled')
    obtain ⟨rest, named⟩ := holds fits
    obtain ⟨_, outside, _, one⟩ := take_walkable h.walk hb clear
    rw [DirOp.onNames, if_neg present]
    refine ⟨s.addDir (entries.map Prod.fst) b v, entries ++ [(b, name.bytes)], run, by simp, ⟨?_, ?_, ?_, ?_⟩, ?_, by simp⟩
    · rw [List.map_append]
      exact addDir_walkable h.walk hb clear (by rw [List.length_map]; omega) (by rw [named]; simp) last
    · intro e member
      rcases List.mem_append.mp member with old | new
      · have mem : e.1 ∈ entries.map Prod.fst := List.mem_map_of_mem old
        rcases read_addDir_dir (v := v) h.walk hb clear mem with same | linked
        · rw [nameOf, same]; exact h.names e old
        · rw [nameOf, linked, dirName_setNextDir]; exact h.names e old
      · obtain rfl := List.mem_singleton.mp new
        rw [nameOf, read_addDir_self, named, scan_append_zero name.nonzero]
    · rw [List.map_append]
      exact List.nodup_append.mpr ⟨h.distinct, by simp, fun x hx y hy => by
        obtain rfl := List.mem_singleton.mp hy
        rintro rfl
        exact present hx⟩
    · intro c hc
      rw [read_addDir_map h.walk hb one, Bytes.bit_setBit _ (by omega), Bool.or_eq_true, h.bits c hc, decide_eq_true_iff,
        List.map_append, List.mem_append]
      simp only [List.map_cons, List.map_nil, List.mem_singleton, or_assoc]
    · intro e member _
      exact List.mem_append_left _ member

theorem erase_mid {front back : List (Nat × List UInt8)} {e : Nat × List UInt8}
    (distinct : ((front ++ e :: back).map Prod.snd).Nodup) :
    ((front ++ e :: back).map Prod.snd).erase e.2 = (front ++ back).map Prod.snd := by
  rw [List.map_append, List.map_cons] at distinct ⊢
  have absent : e.2 ∉ front.map Prod.snd := fun member =>
    (List.nodup_append.mp distinct).2.2 _ member _ (List.mem_cons_self ..) rfl
  rw [List.erase_append_right _ absent, List.erase_cons_head, List.map_append]

theorem rmdir_refines (h : Refines s entries) (name : CString) :
    ∃ s' entries', sfsRmdir s name = .ok (((DirOp.rmdir name).onNames (entries.map Prod.snd)).1, s') ∧
      entries'.map Prod.snd = ((DirOp.rmdir name).onNames (entries.map Prod.snd)).2 ∧
      DirStep s s' entries entries' ((DirOp.rmdir name).onNames (entries.map Prod.snd)).1 := by
  by_cases present : name.bytes ∈ entries.map Prod.snd
  · rcases h.walk.find_cases name with ⟨_, absent⟩ | ⟨front, id, back, shape, found, named⟩
    · obtain ⟨id, member, same⟩ := (name_mem_iff h _).mp present
      exact absurd same (absent id member)
    · obtain ⟨front, later, rfl, rfl, tail⟩ := List.map_eq_append_iff.mp shape
      obtain ⟨e, back, rfl, rfl, rfl⟩ := List.map_eq_cons_iff.mp tail
      have walk := h.walk
      rw [List.map_append, List.map_cons] at walk
      have mem : e ∈ front ++ e :: back := by simp
      have key : e.2 = name.bytes := (h.names e mem).symm.trans named
      have within : ∀ x ∈ front ++ back, x ∈ front ++ e :: back := by
        intro x hx
        rcases List.mem_append.mp hx with m | m
        · simp [m]
        · simp [m]
      rw [DirOp.onNames, if_pos present, ← key, erase_mid h.distinct]
      refine ⟨_, front ++ back, sfsRmdir_found walk found, rfl, ⟨?_, fun x hx => ?_, ?_, fun b hb => ?_⟩, ?_, by simp⟩
      · rw [List.map_append]
        exact dropDir_walkable walk
      · have hx' := List.mem_map_of_mem (f := Prod.fst) (within x hx)
        rw [List.map_append, List.map_cons] at hx'
        rcases read_dropDir_dir walk (walk.small _ hx') (walk.ne_zero hx') (walk.ne_one hx') with same | linked
        · rw [nameOf, same]; exact h.names x (within x hx)
        · rw [nameOf, linked, dirName_setNextDir]; exact h.names x (within x hx)
      · rw [← erase_mid h.distinct]
        exact h.distinct.erase _
      · have ids := Chain.nodup walk.chain
        have hid := walk.small e.1 (by simp)
        have zero := @Walkable.ne_zero _ _ walk e.1 (by simp)
        have one := @Walkable.ne_one _ _ walk e.1 (by simp)
        obtain ⟨-, later, apart⟩ := List.nodup_append.mp ids
        have notFront : e.1 ∉ front.map Prod.fst := fun m => apart _ m _ (List.mem_cons_self ..) rfl
        have notBack : e.1 ∉ back.map Prod.fst := (List.nodup_cons.mp later).1
        rw [read_dropDir_map walk, Bytes.bit_clearBit _ (by omega), Bool.and_eq_true, h.bits b hb, decide_eq_true_iff]
        simp only [List.map_append, List.map_cons, List.mem_append, List.mem_cons]
        constructor
        · rintro ⟨rfl | rfl | m | rfl | m, other⟩
          · exact Or.inl rfl
          · exact Or.inr (Or.inl rfl)
          · exact Or.inr (Or.inr (Or.inl m))
          · exact absurd rfl other
          · exact Or.inr (Or.inr (Or.inr m))
        · rintro (rfl | rfl | m | m)
          · exact ⟨Or.inl rfl, zero.symm⟩
          · exact ⟨Or.inr (Or.inl rfl), one.symm⟩
          · exact ⟨Or.inr (Or.inr (Or.inl m)), by rintro rfl; exact notFront m⟩
          · exact ⟨Or.inr (Or.inr (Or.inr (Or.inr m))), by rintro rfl; exact notBack m⟩
      · intro x hx kept
        rcases List.mem_append.mp hx with m | m
        · exact List.mem_append_left _ m
        · rcases List.mem_cons.mp m with rfl | m
          · rw [← erase_mid h.distinct] at kept
            exact absurd kept (h.distinct.not_mem_erase)
          · exact List.mem_append_right _ m
  · have absent : ∀ id ∈ entries.map Prod.fst, nameOf s.disk id ≠ name.bytes :=
      fun id member same => present ((name_mem_iff h _).mpr ⟨id, member, same⟩)
    rw [DirOp.onNames, if_neg present]
    exact ⟨s, entries, sfsRmdir_absent h.walk absent, rfl, DirStep.same h _⟩

theorem dirOp_refines (h : Refines s entries) (op : DirOp) (fits : op.Fits)
    (room : (op.onNames (entries.map Prod.snd)).2.length ≤ 1022) :
    ∃ s' entries', op.run s = .ok ((op.onNames (entries.map Prod.snd)).1, s') ∧
      entries'.map Prod.snd = (op.onNames (entries.map Prod.snd)).2 ∧
      DirStep s s' entries entries' (op.onNames (entries.map Prod.snd)).1 := by
  cases op with
  | mkdir temp name =>
    apply mkdir_refines h temp name fits
    intro absent
    rw [DirOp.onNames, if_neg absent] at room
    have := room
    rw [List.length_append, List.length_map, List.length_singleton] at this
    omega
  | rmdir name => exact rmdir_refines h name
  | lsdir =>
    refine ⟨s, entries, ?_, rfl, DirStep.same h _⟩
    rw [DirOp.run, sfsLsdir_ok h.walk, DirOp.onNames, List.length_map, List.length_map]

/-! ### Runs -/

theorem runDirs_refines (h : Refines s entries) (ops : List DirOp) (fits : ∀ op ∈ ops, op.Fits)
    (alive : ∀ k, (onNames (ops.take k) (entries.map Prod.snd)).2.length ≤ 1022) :
    ∃ s' entries', runDirs ops s = .ok ((onNames ops (entries.map Prod.snd)).1, s') ∧
      entries'.map Prod.snd = (onNames ops (entries.map Prod.snd)).2 ∧ Refines s' entries' := by
  induction ops generalizing s entries with
  | nil => exact ⟨s, entries, rfl, rfl, h⟩
  | cons op ops ih =>
    obtain ⟨s₁, entries₁, run, names, step⟩ := dirOp_refines h op (fits op (List.mem_cons_self ..)) (alive 1)
    obtain ⟨s', entries', rest, names', refines⟩ := ih step.refines
      (fun op' h' => fits op' (List.mem_cons_of_mem _ h')) (fun k => by rw [names]; exact alive (k + 1))
    refine ⟨s', entries', ?_, by rw [names', names]; rfl, refines⟩
    rw [runDirs, run, ok_bind]
    dsimp only
    rw [rest, names]
    rfl

theorem onNames_concat (ops : List DirOp) (op : DirOp) (names : List (List UInt8)) :
    (onNames (ops ++ [op]) names).2 = (op.onNames (onNames ops names).2).2 := by
  induction ops generalizing names with
  | nil => rfl
  | cons first ops ih => exact ih (first.onNames names).2

/-- After any run of directory calls, and for any further call: the results are those of the list of
names, the chain holds exactly those names in order, and the call changes what the list changes. -/
theorem directories_refine_names (s : State) (ops : List DirOp) (op : DirOp) (fits : ∀ o ∈ ops ++ [op], o.Fits)
    (alive : ∀ k, (onNames ((ops ++ [op]).take k) []).2.length ≤ 1022) :
    ∃ s₁ entries₁ s₂ entries₂, runDirs ops (start s) = .ok ((onNames ops []).1, s₁) ∧
      Refines s₁ entries₁ ∧ entries₁.map Prod.snd = (onNames ops []).2 ∧
      op.run s₁ = .ok ((op.onNames (onNames ops []).2).1, s₂) ∧
      entries₂.map Prod.snd = (op.onNames (onNames ops []).2).2 ∧
      DirStep s₁ s₂ entries₁ entries₂ (op.onNames (onNames ops []).2).1 := by
  have before : ∀ k, (onNames (ops.take k) []).2.length ≤ 1022 := by
    intro k
    have bound := alive (min k ops.length)
    rwa [List.take_append_of_le_length (Nat.min_le_right _ _), ← List.take_eq_take_min] at bound
  have after : (op.onNames (onNames ops []).2).2.length ≤ 1022 := by
    have bound := alive (ops ++ [op]).length
    rwa [List.take_length, onNames_concat] at bound
  obtain ⟨s₁, entries₁, run, names, refines⟩ := @runDirs_refines (start s) [] (refines_start s) ops
    (fun o h => fits o (List.mem_append_left _ h)) before
  rw [List.map_nil] at run names
  rw [← names] at after ⊢
  obtain ⟨s₂, entries₂, step, names', kept⟩ := dirOp_refines refines op (fits op (by simp)) after
  exact ⟨s₁, entries₁, s₂, entries₂, run, refines, rfl, step, names', kept⟩

def slash : CString := ⟨[47], by simp⟩

theorem mkdir_twice_refuses :
    ∃ s₁ s₂, runDirs [.mkdir .zero slash] (start .initial) = .ok ([0], s₁) ∧ sfsMkdir s₁ .zero slash = .ok (-1, s₂) ∧
      s₂.disk = s₁.disk := by
  obtain ⟨s₁, _, s₂, _, run, _, _, again, _, step⟩ := directories_refine_names .initial [.mkdir .zero slash]
    (.mkdir .zero slash) (fun o h => by
      obtain rfl | rfl : o = .mkdir .zero slash ∨ o = .mkdir .zero slash := by simpa using h
      all_goals exact (by decide : slash.bytes.length ≤ 119)) (fun k => by
      rcases k with _ | _ | k
      · exact Nat.zero_le _
      · exact (by decide : 1 ≤ 1022)
      · rw [List.take_of_length_le (by rw [List.length_append, List.length_singleton]; omega)]
        exact (by decide : 1 ≤ 1022))
  exact ⟨s₁, s₂, run, again, step.refused rfl⟩

end StorageStack.Sfs
