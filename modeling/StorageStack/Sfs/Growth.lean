import StorageStack.Sfs.Ownership

/-!
# Growing a file

A write attaches blocks to its file: it fills entries of frames that were zero and links new frames. Each
loop is described by what it leaves of the blocks that were owned before (`Grows`) and by what the
frame in memory holds (`FrameOk`); the frame itself reaches the disk when the loop over it ends.
-/

namespace StorageStack.Sfs
open Lib

/-- `own'` extends `own`, and of the blocks owned before only those in `touched` are changed. -/
structure Grows (touched : Nat → Prop) (own own' : Owners) (s s' : State) : Prop where
  grow : ∀ {b l}, own b = some l → own' b = some l
  bits : ∀ b < 4096, (s'.disk.read 1).bit b = true ↔
    (s.disk.read 1).bit b = true ∨ (own b = none ∧ own' b ≠ none)
  kept : ∀ {b}, own b ≠ none → ¬ touched b → s'.disk.read b = s.disk.read b
  sb : s'.sb = s.sb
  fdtable : s'.fdtable = s.fdtable
  flushed : s.freemap = s.disk.read 1 → s'.freemap = s'.disk.read 1

variable {own own' own'' : Owners} {s s' s'' : State} {touched touched' : Nat → Prop}

theorem Grows.refl (touched : Nat → Prop) (own : Owners) (s : State) : Grows touched own own s s :=
  ⟨id, fun _ _ => ⟨Or.inl, fun h => h.resolve_right fun both => both.2 both.1⟩, fun _ _ => rfl, rfl, rfl, id⟩

theorem Grows.owned (h : Grows touched own own' s s') {b : Nat} (used : own b ≠ none) : own' b ≠ none := by
  obtain ⟨l, owned⟩ := Option.ne_none_iff_exists'.mp used
  rw [h.grow owned]
  simp

theorem Grows.role (h : Grows touched own own' s s') {b : Nat} {k : Kind} (used : Owners.role own b = some k) :
    Owners.role own' b = some k := by
  obtain ⟨l, owned, same⟩ := Scheme.role_eq_some used
  exact same ▸ role_of_own (h.grow owned)

theorem Grows.trans (h : Grows touched own own' s s') (h' : Grows touched' own' own'' s' s'')
    (inside : ∀ b, own b ≠ none → touched' b → touched b) : Grows touched own own'' s s'' := by
  refine ⟨fun owned => h'.grow (h.grow owned), fun b hb => ?_, fun {b} used outside => ?_, h'.sb.trans h.sb,
    h'.fdtable.trans h.fdtable, fun flushed => h'.flushed (h.flushed flushed)⟩
  · rw [h'.bits b hb, h.bits b hb]
    constructor
    · rintro ((set | ⟨free, used⟩) | ⟨free, used⟩)
      · exact Or.inl set
      · exact Or.inr ⟨free, h'.owned used⟩
      · exact Or.inr ⟨by_contra fun some => h.owned some free, used⟩
    · rintro (set | ⟨free, used⟩)
      · exact Or.inl (Or.inl set)
      · by_cases later : own' b = none
        · exact Or.inr ⟨later, used⟩
        · exact Or.inl (Or.inr ⟨free, later⟩)
  · rw [h'.kept (h.owned used) (fun again => outside (inside b used again)), h.kept used outside]

theorem Grows.mono (h : Grows touched own own' s s') (inside : ∀ b, touched b → touched' b) :
    Grows touched' own own' s s' :=
  ⟨h.grow, h.bits, fun used outside => h.kept used fun t => outside (inside _ t), h.sb, h.fdtable, h.flushed⟩

def SameInodes (own own' : Owners) : Prop := ∀ i, Owners.role own' i = some .inode → Owners.role own i = some .inode

theorem Grows.sameInodes (h : Grows touched own own' s s')
    (fresh : ∀ b, own b = none → own' b ≠ none → Owners.role own' b ≠ some .inode) : SameInodes own own' := by
  intro i inode
  by_cases free : own i = none
  · exact absurd inode (fresh i free (owned_of_role inode))
  · obtain ⟨l, owned⟩ := Option.ne_none_iff_exists'.mp free
    rw [role_of_own owned, ← inode, role_of_own (h.grow owned)]

theorem Grows.take (sound : Sound own s.disk) {b : Nat} (hb : b < 4096) (clear : (s.disk.read 1).bit b = false) (l : Loc) :
    Grows (fun _ => False) own (Function.update own b (some l)) s (s.take b) := by
  have free := sound.free_of_clear clear
  have one := sound.clear_ne_one clear
  refine ⟨fun {c l'} owned => ?_, fun c hc => ?_, fun {c} used _ => ?_, rfl, rfl, fun _ => take_freemap hb one⟩
  · rw [Function.update_of_ne (by rintro rfl; simp [free] at owned), owned]
  · rw [read_take_map hb one, Bytes.bit_setBit _ (by omega), Bool.or_eq_true, decide_eq_true_iff]
    by_cases new : c = b
    · subst new
      simp [free]
    · rw [Function.update_of_ne new]
      simp [new]
  · exact read_take_of_ne hb (sound.lt used) (sound.ne_one used) (by rintro rfl; exact used free)

theorem Grows.write (sound : Sound own s.disk) {b : Nat} (hb : b < 4096) (other : b ≠ 1) (v : Block) :
    Grows (· = b) own own s { s with disk := s.disk.write b v } := by
  have map : (s.disk.write b v).read 1 = s.disk.read 1 := Image.read_write_of_ne _ _ (by omega)
  refine ⟨id, fun c hc => ?_, fun {c} used outside => ?_, rfl, rfl, fun flushed => flushed.trans map.symm⟩
  · show ((s.disk.write b v).read 1).bit c = true ↔ _
    rw [map]
    exact ⟨Or.inl, fun h => h.resolve_right fun both => both.2 both.1⟩
  · have hc := sound.lt used
    exact Image.read_write_of_ne _ _ (by omega)

/-! ### Frames in memory -/

/-- What a frame in memory may hold before it is written to block `f`. -/
structure FrameOk (own : Owners) (f : Nat) (frame : Block) : Prop where
  next : nextFrame frame ≠ 0 → own (nextFrame frame) = some (.nextFrame f)
  entries : ∀ j < SFS_FRAME_COUNT, content frame j ≠ 0 → own (content frame j) = some (.content f j)

theorem Sound.frameOk (sound : Sound own s.disk) {f : Nat} (h : Owners.role own f = some .frame) :
    FrameOk own f (s.disk.read f) :=
  ⟨sound.nextFrame_owned h, fun _ hj => sound.content_owned h hj⟩

theorem FrameOk.grow {f : Nat} {frame : Block} (ok : FrameOk own f frame) (h : Grows touched own own' s s') :
    FrameOk own' f frame :=
  ⟨fun named => h.grow (ok.next named), fun j hj named => h.grow (ok.entries j hj named)⟩

/-- Between two moments of a loop over frame `f`: the entries in `range` are filled. -/
structure Filled (f : Nat) (range : Nat → Prop) (own : Owners) (s : State) (frame : Block) (own' : Owners)
    (s' : State) (frame' : Block) : Prop where
  sound : Sound own' s'.disk
  ok : FrameOk own' f frame'
  grows : Grows (fun _ => False) own own' s s'
  next : nextFrame frame' = nextFrame frame
  old : ∀ j, content frame j ≠ 0 → content frame' j = content frame j
  outside : ∀ j, ¬ range j → content frame' j = content frame j
  inside : ∀ j, range j → content frame' j ≠ 0
  new : ∀ j, content frame j = 0 → content frame' j ≠ 0 → own (content frame' j) = none
  fresh : ∀ b, own b = none → own' b ≠ none → s'.disk.read b = .zero ∧
    ∃ j, range j ∧ j < SFS_FRAME_COUNT ∧ own' b = some (.content f j) ∧ content frame' j = b

variable {f : Nat} {frame frame' frame'' : Block} {range range' : Nat → Prop}

theorem Filled.refl (sound : Sound own s.disk) (ok : FrameOk own f frame) :
    Filled f (fun _ => False) own s frame own s frame :=
  ⟨sound, ok, Grows.refl _ _ _, rfl, fun _ _ => rfl, fun _ _ => rfl, fun _ h => h.elim,
    fun _ none some => absurd none some, fun _ none some => absurd none some⟩

theorem Filled.trans (h : Filled f range own s frame own' s' frame')
    (h' : Filled f range' own' s' frame' own'' s'' frame'') :
    Filled f (fun j => range j ∨ range' j) own s frame own'' s'' frame'' := by
  have stays : ∀ j, content frame' j ≠ 0 → content frame'' j = content frame' j := h'.old
  refine ⟨h'.sound, h'.ok, h.grows.trans h'.grows fun _ _ no => no, h'.next.trans h.next, fun j named => ?_,
    fun j none => ?_, fun j some => ?_, fun j none some => ?_, fun b free used => ?_⟩
  · rw [h'.old j (by rwa [h.old j named]), h.old j named]
  · rw [h'.outside j fun r => none (Or.inr r), h.outside j fun r => none (Or.inl r)]
  · rcases some with r | r
    · rw [stays j (h.inside j r)]; exact h.inside j r
    · exact h'.inside j r
  · by_cases still : content frame' j = 0
    · exact by_contra fun used => h.grows.owned used (h'.new j still some)
    · rw [stays j still]
      exact h.new j none still
  · by_cases earlier : own' b = none
    · obtain ⟨zero, j, r, hj, owned, entry⟩ := h'.fresh b earlier used
      exact ⟨zero, j, Or.inr r, hj, owned, entry⟩
    · obtain ⟨zero, j, r, hj, owned, entry⟩ := h.fresh b free earlier
      exact ⟨(h'.grows.kept earlier (fun no => no)).trans zero, j, Or.inl r, hj, h'.grows.grow owned,
        (stays j (h.inside j r)).trans entry⟩

theorem Filled.sameInodes (h : Filled f range own s frame own' s' frame') : SameInodes own own' :=
  h.grows.sameInodes fun b free used => by
    obtain ⟨-, j, -, -, owned, -⟩ := h.fresh b free used
    rw [role_of_own owned]
    exact fun same => Kind.noConfusion (Option.some.inj same)

theorem Filled.congr (h : Filled f range own s frame own' s' frame') (same : ∀ j, range j ↔ range' j) :
    Filled f range' own s frame own' s' frame' := by
  obtain rfl : range = range' := funext fun j => propext (same j)
  exact h

theorem allocEntry_ok (sound : Sound own s.disk) (loaded : nfreemapBlocks s.sb ≠ 0) (ok : FrameOk own f frame) {j : Nat}
    (hj : j < SFS_FRAME_COUNT) (hole : content frame j = 0) (free : 0 < (s.disk.read 1).clearCount) :
    ∃ b own', sfsAllocBlock s = .ok (b, s.take b) ∧
      Filled f (· = j) own s frame own' (s.take b) (setContent frame j b) ∧
      ((s.take b).disk.read 1).clearCount + 1 = (s.disk.read 1).clearCount := by
  obtain ⟨b, run, hb, clear, -⟩ := sfsAllocBlock_ok loaded free
  have zero := sound.clear_ne_zero clear
  have one := sound.clear_ne_one clear
  have unowned := sound.free_of_clear clear
  have grows := Grows.take sound hb clear (.content f j)
  have here : content (setContent frame j b) j = b := by rw [content_setContent hj (by omega), if_pos rfl]
  have elsewhere : ∀ i, i ≠ j → content (setContent frame j b) i = content frame i :=
    fun i other => content_setContent_of_ne other
  refine ⟨b, Function.update own b (some (.content f j)), run, ⟨sound.take hb clear _, ⟨fun named => ?_, fun i hi named => ?_⟩,
    grows, nextFrame_setContent, fun i named => ?_, fun i other => elsewhere i other, ?_, fun i none some => ?_,
    fun c free used => ?_⟩, ?_⟩
  · rw [nextFrame_setContent] at named ⊢
    exact grows.grow (ok.next named)
  · by_cases same : i = j
    · rw [same, here, Function.update_self]
    · rw [elsewhere i same] at named ⊢
      exact grows.grow (ok.entries i hi named)
  · exact elsewhere i (by rintro rfl; exact named hole)
  · rintro i rfl
    rw [here]
    exact zero
  · by_cases same : i = j
    · rw [same, here]
      exact unowned
    · rw [elsewhere i same] at some
      exact absurd none some
  · have new : c = b := by
      by_contra other
      exact used (by rw [Function.update_of_ne other, free])
    subst new
    exact ⟨read_take_self s c, j, rfl, hj, Function.update_self .., here⟩
  · rw [read_take_map hb one, Bytes.clearCount_setBit (by omega) clear]

def holes (frame : Block) (i m : Nat) : Nat := ((List.range' i m).filter (content frame · = 0)).length

theorem holes_le (frame : Block) (i m : Nat) : holes frame i m ≤ m :=
  (List.length_filter_le _ _).trans (by rw [List.length_range'])

theorem holes_succ (frame : Block) (i m : Nat) :
    holes frame i (m + 1) = (if content frame i = 0 then 1 else 0) + holes frame (i + 1) m := by
  unfold holes
  rw [List.range'_succ, List.filter_cons]
  by_cases hole : content frame i = 0
  · simp [hole, Nat.add_comm]
  · simp [hole]

theorem holes_congr {i m : Nat} (same : ∀ j, i ≤ j → j < i + m → content frame' j = content frame j) :
    holes frame' i m = holes frame i m := by
  unfold holes
  congr 1
  apply List.filter_congr
  intro j member
  obtain ⟨low, high⟩ := List.mem_range'_1.mp member
  rw [same j low high]

theorem fillEntry_ok (sound : Sound own s.disk) (loaded : nfreemapBlocks s.sb ≠ 0) (ok : FrameOk own f frame) {j : Nat}
    (hj : j < SFS_FRAME_COUNT) (free : holes frame j 1 ≤ (s.disk.read 1).clearCount) :
    ∃ own' s' frame', fillEntry frame j s = .ok (frame', s') ∧ Filled f (· = j) own s frame own' s' frame' ∧
      (s'.disk.read 1).clearCount + holes frame j 1 = (s.disk.read 1).clearCount := by
  rw [holes_succ] at free ⊢
  simp only [holes, List.range'_zero, List.filter_nil, List.length_nil, Nat.add_zero] at free ⊢
  by_cases hole : content frame j = 0
  · rw [if_pos hole] at free ⊢
    obtain ⟨b, own', run, filled, count⟩ := allocEntry_ok sound loaded ok hj hole free
    exact ⟨own', _, _, by rw [fillEntry, if_pos hole, run, ok_bind], filled, count⟩
  · rw [if_neg hole]
    refine ⟨own, s, frame, by rw [fillEntry, if_neg hole], ?_, Nat.add_zero _⟩
    exact ⟨sound, ok, Grows.refl _ _ _, rfl, fun _ _ => rfl, fun _ _ => rfl, fun i same => by rw [same]; exact hole,
      fun _ none some => absurd none some, fun _ none some => absurd none some⟩

/-- How many entries the inner loop handles. -/
def visit (remaining count : Nat) : Nat := min remaining (SFS_FRAME_COUNT - count)

theorem contentLoop_ok {cap remaining count : Nat} {bids : List Nat} (sound : Sound own s.disk)
    (loaded : nfreemapBlocks s.sb ≠ 0) (ok : FrameOk own f frame)
    (free : holes frame count (visit remaining count) ≤ (s.disk.read 1).clearCount) (room : bids.length + remaining ≤ cap) :
    ∃ own' s' frame', contentLoop cap remaining count frame bids s = .ok ⟨frame',
        bids ++ (List.range' count (visit remaining count)).map (content frame'), remaining - visit remaining count, s'⟩ ∧
      Filled f (fun j => count ≤ j ∧ j < count + visit remaining count) own s frame own' s' frame' ∧
      (s'.disk.read 1).clearCount + holes frame count (visit remaining count) = (s.disk.read 1).clearCount := by
  induction remaining generalizing own s frame count bids with
  | zero =>
    have none : visit 0 count = 0 := Nat.zero_min _
    rw [none]
    refine ⟨own, s, frame, by simp [contentLoop], (Filled.refl sound ok).congr fun j => ?_, by simp [holes]⟩
    simp only [false_iff]
    omega
  | succ remaining ih =>
    by_cases hj : count < SFS_FRAME_COUNT
    · have step : visit (remaining + 1) count = visit remaining (count + 1) + 1 := by unfold visit; omega
      rw [step, holes_succ] at free
      have one : holes frame count 1 = if content frame count = 0 then 1 else 0 := by
        rw [holes_succ]; simp [holes]
      obtain ⟨own₁, s₁, frame₁, run₁, filled₁, count₁⟩ := fillEntry_ok sound loaded ok hj (by omega)
      have later : holes frame₁ (count + 1) (visit remaining (count + 1)) = holes frame (count + 1)
        (visit remaining (count + 1)) :=
        holes_congr fun j low _ => filled₁.outside j (by omega)
      obtain ⟨own', s', frame', run', filled', count'⟩ := @ih own₁ s₁ frame₁ (count + 1) (bids ++ [content frame₁ count])
        filled₁.sound (by rw [filled₁.grows.sb]; exact loaded) filled₁.ok (by omega) (by simp; omega)
      refine ⟨own', s', frame', ?_, (filled₁.trans filled').congr fun j => ?_, ?_⟩
      · rw [contentLoop, if_pos hj, run₁, ok_bind]
        dsimp only
        rw [if_pos (by omega), run', step, List.range'_succ, List.map_cons,
          filled'.old count (filled₁.inside count rfl), List.append_assoc, List.singleton_append]
        congr 2
        omega
      · rw [step]
        omega
      · rw [step, holes_succ]
        omega
    · have none : visit (remaining + 1) count = 0 := by unfold visit; omega
      rw [none]
      refine ⟨own, s, frame, by rw [contentLoop, if_neg hj]; simp, (Filled.refl sound ok).congr fun j => ?_,
        by simp [holes]⟩
      simp only [false_iff]
      omega

end StorageStack.Sfs
