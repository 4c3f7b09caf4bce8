import StorageStack.Sfs.FileBlocks
import StorageStack.Sfs.OpenFile

/-!
# Removing files

`sfs_remove` clears the slot that holds the inode, and one more slot that it takes the inode's block id
for, and then frees the content blocks, the frames and the inode. Freeing only clears bits of the freemap.
-/

namespace StorageStack.Sfs
open Lib

variable {own : Owners} {s s' s'' : State} {d : Image} {gone gone' : List Nat}

/-- The blocks `gone` were freed and nothing else happened. -/
structure Released (gone : List Nat) (s s' : State) : Prop where
  kept : ∀ b < 4096, b ≠ 1 → s'.disk.read b = s.disk.read b
  bits : ∀ b < 4096, (s'.disk.read 1).bit b = true ↔ (s.disk.read 1).bit b = true ∧ b ∉ gone
  coherent : Coherent s → Coherent s'
  fdtable : s'.fdtable = s.fdtable

theorem Released.refl (s : State) : Released [] s s := ⟨fun _ _ _ => rfl, fun b _ => by simp, id, rfl⟩

theorem Released.trans (h : Released gone s s') (h' : Released gone' s' s'') : Released (gone ++ gone') s s'' := by
  refine ⟨fun b hb map => (h'.kept b hb map).trans (h.kept b hb map), fun b hb => ?_, fun c => h'.coherent (h.coherent c),
    h'.fdtable.trans h.fdtable⟩
  rw [h'.bits b hb, h.bits b hb, List.mem_append]
  tauto

/-- The state after the blocks were freed one after the other. -/
def State.releaseAll (s : State) (gone : List Nat) : State := gone.foldl State.release s

theorem releaseAll_append (s : State) (gone gone' : List Nat) :
    s.releaseAll (gone ++ gone') = (s.releaseAll gone).releaseAll gone' :=
  List.foldl_append

theorem release_released (s : State) (b : Nat) : Released [b] s (s.release b) := by
  refine ⟨fun c hc map => read_release_of_ne hc map, fun c hc => ?_, fun coherent => coherent.release b, rfl⟩
  rw [read_release_map, List.mem_singleton]
  by_cases inside : b < 4096
  · rw [Bytes.bit_clearBit _ (by omega), Bool.and_eq_true, decide_eq_true_iff]
  · rw [Bytes.bit, Bytes.clearBit, Bytes.word_setWord_of_ne _ (by omega), ← Bytes.bit]
    exact (and_iff_left (by omega)).symm

theorem releaseAll_released (s : State) (gone : List Nat) : Released gone s (s.releaseAll gone) := by
  induction gone generalizing s with
  | nil => exact .refl s
  | cons b gone ih => exact (release_released s b).trans (ih (s.release b))

def contents (frame : Block) (i n : Nat) : List Nat := ((List.range' i n).map (content frame)).filter (· ≠ 0)

theorem freeContents_ok (frame : Block) {remaining i : Nat} (inside : i + remaining ≤ SFS_FRAME_COUNT)
    (small : ∀ j < SFS_FRAME_COUNT, content frame j < 4096) (s : State) :
    freeContents frame remaining i s = .ok (s.releaseAll (contents frame i remaining)) := by
  induction remaining generalizing i s with
  | zero => rfl
  | succ remaining ih =>
    have split : contents frame i (remaining + 1) =
        (if content frame i ≠ 0 then [content frame i] else []) ++ contents frame (i + 1) remaining := by
      unfold contents
      rw [List.range'_succ, List.map_cons, List.filter_cons]
      by_cases used : content frame i = 0
      · simp [used]
      · simp [used]
    rw [freeContents, split, releaseAll_append]
    by_cases used : content frame i ≠ 0
    · rw [if_pos used, if_pos used, sfsFreeBlock_ok s (small i (by omega)), ok_bind]
      exact ih (by omega) (s.release (content frame i))
    · rw [if_neg used, if_neg used, ok_bind]
      exact ih (by omega) s

def blocksOf (d : Image) (fs : List Nat) : List Nat :=
  fs.flatMap fun f => contents (d.read f) 0 SFS_FRAME_COUNT ++ [f]

/-- The frames that the loop visits, with the states it starts and ends in. -/
inductive Visited : (frameBid : Nat) → State → List Nat → State → Prop
  | done {s : State} : Visited 0 s [] s
  | frame {frameBid : Nat} {s s₁ s₂ s' : State} {fs : List Nat} : frameBid ≠ 0 →
      freeContents (s.disk.read frameBid) SFS_FRAME_COUNT 0 s = .ok s₁ → sfsFreeBlock s₁ frameBid = .ok s₂ →
      Visited (nextFrame (s.disk.read frameBid)) s₂ fs s' → Visited frameBid s (frameBid :: fs) s'

/-- A loop that was left needed one iteration for each frame. -/
theorem Visited.run {fs : List Nat} {frameBid fuel : Nat} (visited : Visited frameBid s fs s') (enough : fs.length < fuel) :
    freeFrames fuel frameBid s = .ok s' := by
  induction visited generalizing fuel with
  | done =>
    obtain ⟨fuel, rfl⟩ := Nat.exists_eq_succ_of_ne_zero (by omega : fuel ≠ 0)
    exact if_pos rfl
  | frame named contents itself _ ih =>
    obtain ⟨fuel, rfl⟩ := Nat.exists_eq_succ_of_ne_zero (by omega : fuel ≠ 0)
    rw [freeFrames, if_neg named]
    dsimp only
    rw [contents, ok_bind, itself, ok_bind]
    exact ih (by simpa using enough)

theorem freeFrames_visits {fs : List Nat} {frameBid : Nat} (chain : Chain (frameNext d) frameBid fs)
    (same : ∀ b < 4096, b ≠ 1 → s.disk.read b = d.read b) (frames : ∀ f ∈ fs, f < 4096 ∧ f ≠ 1)
    (small : ∀ f ∈ fs, ∀ j < SFS_FRAME_COUNT, content (d.read f) j < 4096) :
    Visited frameBid s fs (s.releaseAll (blocksOf d fs)) := by
  induction fs generalizing s frameBid with
  | nil =>
    obtain rfl : frameBid = 0 := chain
    exact .done
  | cons f fs ih =>
    obtain ⟨rfl, named, rest⟩ := chain
    obtain ⟨hf, notMap⟩ := frames f (List.mem_cons_self ..)
    have here := same f hf notMap
    have all : blocksOf d (f :: fs) = contents (s.disk.read f) 0 SFS_FRAME_COUNT ++ ([f] ++ blocksOf d fs) := by
      rw [here, ← List.append_assoc]
      rfl
    have entries := freeContents_ok (s.disk.read f) (Nat.le_of_eq (Nat.zero_add _))
      (fun j hj => by rw [here]; exact small f (List.mem_cons_self ..) j hj) s
    have freed := (releaseAll_released s (contents (s.disk.read f) 0 SFS_FRAME_COUNT)).trans (release_released _ f)
    rw [frameNext, ← here] at rest
    rw [all, releaseAll_append, releaseAll_append]
    exact .frame named entries (sfsFreeBlock_ok _ hf) (ih rest (fun b hb map => (freed.kept b hb map).trans (same b hb map))
      (fun g m => frames g (List.mem_cons_of_mem _ m)) fun g m => small g (List.mem_cons_of_mem _ m))

/-! ### The slots -/

theorem Sound.erase (sound : Sound own d) {b : Nat} (hb : b < 4096) (other : b ≠ 1) {v : Block}
    (erased : ∀ k, v.word k = 0 ∨ v.word k = (d.read b).word k) : Sound own (d.write b v) := by
  apply sound.write hb other
  intro l live here named
  have read : v.word l.field = l.read d := by
    rw [Loc.read, here]
    exact (erased l.field).resolve_left named
  rw [read] at named ⊢
  exact sound.refs l live named

theorem clearSlot_cases (dir : Block) (inodeBid : Nat) :
    (∃ k < SFS_DB_NINODES, inodes dir k = inodeBid ∧ clearSlot dir inodeBid = dir.setWord (31 + k) 0) ∨
      (∀ k < SFS_DB_NINODES, inodes dir k ≠ inodeBid) ∧ clearSlot dir inodeBid = dir := by
  rw [clearSlot]
  cases found : (List.range SFS_DB_NINODES).find? (fun k => inodes dir k = inodeBid) with
  | none =>
    refine Or.inr ⟨fun k hk same => ?_, rfl⟩
    simpa [same] using List.find?_eq_none.mp found k (List.mem_range.mpr hk)
  | some k =>
    exact Or.inl ⟨k, List.mem_range.mp (List.mem_of_find?_eq_some found), by simpa using List.find?_some found, rfl⟩

def withoutSlot (dir : Block) (inodeBid : Nat) : Block := (clearSlot dir inodeBid).setWord (31 + inodeBid) 0

theorem withoutSlot_word (dir : Block) {inodeBid : Nat} (small : inodeBid < SFS_DB_NINODES) (k : Nat) :
    (withoutSlot dir inodeBid).word k = 0 ∨ (withoutSlot dir inodeBid).word k = dir.word k := by
  unfold SFS_DB_NINODES at small
  rw [withoutSlot, word_setWord (by omega) (by decide)]
  by_cases index : k = 31 + inodeBid
  · exact Or.inl (if_pos index)
  rw [if_neg index]
  rcases clearSlot_cases dir inodeBid with ⟨j, hj, -, cleared⟩ | ⟨-, same⟩
  · unfold SFS_DB_NINODES at hj
    rw [cleared, word_setWord (by omega) (by decide)]
    split
    · exact Or.inl rfl
    · exact Or.inr rfl
  · exact Or.inr (by rw [same])

theorem withoutSlot_slot {dir : Block} {inodeBid k : Nat} (small : inodeBid < SFS_DB_NINODES) (hk : k < SFS_DB_NINODES)
    (unique : ∀ j < SFS_DB_NINODES, inodes dir j = inodeBid → j = k) (some : inodeBid ≠ 0) :
    inodes (withoutSlot dir inodeBid) k ≠ inodeBid := by
  intro still
  unfold SFS_DB_NINODES at small hk
  rw [inodes, withoutSlot, word_setWord (by omega) (by decide)] at still
  split at still
  · exact some still.symm
  · rcases clearSlot_cases dir inodeBid with ⟨j, hj, holds, cleared⟩ | ⟨absent, same⟩
    · obtain rfl := unique j hj holds
      rw [cleared, word_setWord (by omega) (by decide), if_pos rfl] at still
      exact some still.symm
    · rw [same] at still
      exact absent k hk still

theorem withoutSlot_kept {dir : Block} {inodeBid k : Nat} (small : inodeBid < SFS_DB_NINODES)
    (other : k ≠ inodeBid) (apart : inodes dir k ≠ inodeBid) : inodes (withoutSlot dir inodeBid) k = inodes dir k := by
  unfold SFS_DB_NINODES at small
  rw [inodes, withoutSlot, word_setWord (by omega) (by decide), if_neg (by omega)]
  rcases clearSlot_cases dir inodeBid with ⟨j, hj, holds, cleared⟩ | ⟨-, same⟩
  · unfold SFS_DB_NINODES at hj
    rw [cleared, word_setWord (by omega) (by decide), if_neg, inodes]
    intro here
    obtain rfl : k = j := by omega
    exact apart holds
  · rw [same, inodes]

theorem withoutSlot_of_lt (dir : Block) {inodeBid k : Nat} (small : inodeBid < SFS_DB_NINODES) (hk : k < 31) :
    (withoutSlot dir inodeBid).word k = dir.word k := by
  unfold SFS_DB_NINODES at small
  rw [withoutSlot, Bytes.word_setWord_of_ne _ (by omega)]
  rcases clearSlot_cases dir inodeBid with ⟨j, hj, -, cleared⟩ | ⟨-, same⟩
  · rw [cleared, Bytes.word_setWord_of_ne _ (by omega)]
  · rw [same]

/-- An inode that is taken for a directory stays usable: the words that are cleared are part of its name. -/
theorem Usable.withoutSlot {inode : Block} (h : Usable inode) {inodeBid : Nat} (small : inodeBid < SFS_DB_NINODES) :
    Usable (withoutSlot inode inodeBid) := by
  refine ⟨?_, by rw [firstFrame, withoutSlot_of_lt _ small (by decide)]; exact h.framed⟩
  unfold SFS_DB_NINODES at small
  have word : (Sfs.withoutSlot inode inodeBid).word (31 + inodeBid) = 0 :=
    Bytes.word_setWord_self _ (by omega) (by decide)
  have zero := Bytes.get_eq_zero_of_word_lt (Sfs.withoutSlot inode inodeBid) (by rw [word]; decide)
  rw [fileName, List.mem_iff_getElem?]
  refine ⟨4 * (31 + inodeBid) + 3 - 8, ?_⟩
  rw [List.getElem?_drop, show 8 + (4 * (31 + inodeBid) + 3 - 8) = 4 * (31 + inodeBid) + 3 by omega,
    Bytes.getElem?_toList _ (by omega), zero]

/-! ### `sfs_remove` -/

/-- What is left of the owners when a file goes. -/
noncomputable def dropFile (own : Owners) (inode : Nat) : Owners :=
  open Classical in fun b => if b = inode ∨ InFile own inode b then none else own b

theorem dropFile_of_role {inode b : Nat} {k : Kind} (role : Owners.role own b = some k) (other : b ≠ inode) (frame : k ≠ .frame)
    (data : k ≠ .data) : dropFile own inode b = own b := by
  refine if_neg (not_or.mpr ⟨other, fun file => ?_⟩)
  rcases file.role with h | h
  · exact frame (Option.some.inj (role.symm.trans h))
  · exact data (Option.some.inj (role.symm.trans h))

theorem dropFile_eq {inode b : Nat} {l : Loc} (h : dropFile own inode b = some l) : own b = some l := by
  unfold dropFile at h
  split at h
  · cases h
  · exact h

theorem dropFile_refs {inode : Nat} (refs : layout.Sound own (Loc.read d))
    (unnamed : ∀ l, own inode = some l → layout.Live own l → l.read d ≠ inode) :
    layout.Sound (dropFile own inode) (Loc.read d) := by
  classical
  have released := Scheme.Sound.release (fun b => b = inode ∨ InFile own inode b) refs fun b l gone owner live => ?_
  · convert released using 1
    unfold dropFile
    congr
  rcases gone with rfl | file
  · exact Or.inr (unnamed l owner live)
  · cases file with
    | firstFrame h =>
      obtain rfl := Option.some.inj (h.symm.trans owner)
      exact Or.inl (Or.inl rfl)
    | nextFrame h frame =>
      obtain rfl := Option.some.inj (h.symm.trans owner)
      exact Or.inl (Or.inr frame)
    | content h frame =>
      obtain rfl := Option.some.inj (h.symm.trans owner)
      exact Or.inl (Or.inr frame)

theorem LiveFd.dropFile {inode : Nat} {entry : Fd} (h : LiveFd own entry) (other : entry.inodeBid ≠ inode) :
    LiveFd (dropFile own inode) entry := by
  obtain ⟨k, owned⟩ := h.slot
  exact ⟨⟨k, by rw [dropFile_of_role h.role other (by decide) (by decide), owned]⟩, h.range⟩

theorem mem_blocksOf {fs : List Nat} {b : Nat} (h : b ∈ blocksOf d fs) :
    b ∈ fs ∨ ∃ f ∈ fs, ∃ j < SFS_FRAME_COUNT, content (d.read f) j = b ∧ b ≠ 0 := by
  obtain ⟨f, member, inside⟩ := List.mem_flatMap.mp h
  rcases List.mem_append.mp inside with entry | itself
  · obtain ⟨mapped, used⟩ := List.mem_filter.mp entry
    obtain ⟨j, range, rfl⟩ := List.mem_map.mp mapped
    have bound := (List.mem_range'_1.mp range).2
    exact Or.inr ⟨f, member, j, by omega, rfl, by simpa using used⟩
  · obtain rfl := List.mem_singleton.mp itself
    exact Or.inl member

theorem blocksOf_frame {fs : List Nat} {f : Nat} (h : f ∈ fs) : f ∈ blocksOf d fs :=
  List.mem_flatMap.mpr ⟨f, h, List.mem_append.mpr (.inr (List.mem_singleton_self f))⟩

theorem blocksOf_content {fs : List Nat} {f j : Nat} (h : f ∈ fs) (hj : j < SFS_FRAME_COUNT) (used : content (d.read f) j ≠ 0) :
    content (d.read f) j ∈ blocksOf d fs := by
  refine List.mem_flatMap.mpr ⟨f, h, List.mem_append.mpr (.inl (List.mem_filter.mpr ⟨?_, by simpa using used⟩))⟩
  exact List.mem_map.mpr ⟨j, List.mem_range'_1.mpr ⟨Nat.zero_le _, by omega⟩, rfl⟩

theorem anchored_blocksOf {inode b : Nat} {fs : List Nat} (sound : Sound own d) (role : Owners.role own inode = some .inode)
    (chain : Chain (frameNext d) (firstFrame (d.read inode)) fs) (roles : ∀ f ∈ fs, Owners.role own f = some .frame)
    (h : layout.Anchored own (Loc.read d) inode b) : b ∈ blocksOf d fs ++ [inode] := by
  suffices cases' : b = inode ∨ b ∈ fs ∨ ∃ f ∈ fs, ∃ j < SFS_FRAME_COUNT, content (d.read f) j = b ∧ b ≠ 0 by
    rw [List.mem_append, List.mem_singleton]
    rcases cases' with itself | frame | ⟨f, member, j, hj, rfl, used⟩
    · exact .inr itself
    · exact .inl (blocksOf_frame frame)
    · exact .inl (blocksOf_content member hj used)
  induction h with
  | root => exact .inl rfl
  | @step b l owned live named _ ih =>
    have used : b ≠ 0 := by
      rw [← named]
      exact sound.ne_zero_of_holds ⟨live, named ▸ owned⟩
    rcases ih with here | frame | ⟨f, member, j, hj, entry, some⟩
    · obtain ⟨i, rfl⟩ := hostKind_inode (live_cases live here role)
      obtain rfl : i = inode := here
      have first : firstFrame (d.read i) = b := named
      refine .inr (.inl ?_)
      cases fs with
      | nil => exact absurd (first.symm.trans chain) used
      | cons f fs =>
        rw [← first, ← chain.1]
        exact List.mem_cons_self ..
    · rcases hostKind_frame (live_cases live rfl (roles _ frame)) with ⟨f, rfl⟩ | ⟨f, j, hj, rfl⟩
      · have next : frameNext d f = b := named
        rw [← next] at used ⊢
        exact .inr (.inl (chain.next_mem frame used))
      · exact .inr (.inr ⟨f, frame, j, hj, named, used⟩)
    · have owner := sound.content_owned (roles f member) hj (by rw [entry]; exact some)
      rw [entry] at owner
      exact absurd (live_cases live rfl (role_of_own owner)) (hostKind_ne_data l)

theorem sfsRemove_ok {fd : Int} {slot : Fin 32} {entry : Fd} (h : Healthy own s) (index : fdIndex fd = .ok slot)
    (here : s.fdtable slot = entry) (live : LiveFd own entry) (small : entry.inodeBid < SFS_DB_NINODES) :
    ∃ s', sfsRemove s fd = .ok (0, s') ∧ Healthy (dropFile own entry.inodeBid) s' ∧ s'.fdtable = s.fdtable ∧
      s'.disk.read entry.dirBid = withoutSlot (s.disk.read entry.dirBid) entry.inodeBid ∧
      (∀ b < 4096, b ≠ 1 → b ≠ entry.dirBid → s'.disk.read b = s.disk.read b) ∧
      ∀ b < 4096, (s'.disk.read 1).bit b = true →
        (s.disk.read 1).bit b = true ∧ ¬ layout.Anchored own (Loc.read s'.disk) entry.inodeBid b := by
  obtain ⟨slotIndex, owned⟩ := live.slot
  have role := live.role
  have hi := h.sound.role_lt role
  have iMap := h.sound.role_ne_one role
  have iZero := h.sound.role_ne_zero role (by decide)
  obtain ⟨low, high⟩ := live.range
  -- The directory is written first, and the walk over the frames starts from what is there then.
  have sound₁ := h.sound.erase high (by omega) (withoutSlot_word (s.disk.read entry.dirBid) small)
  have coherent₁ := h.coherent.write high (by omega) (by omega) (withoutSlot (s.disk.read entry.dirBid) entry.inodeBid)
  have written := Image.read_write s.disk entry.dirBid (withoutSlot (s.disk.read entry.dirBid) entry.inodeBid)
  have others : ∀ b < 4096, b ≠ entry.dirBid → (s.disk.write entry.dirBid
      (withoutSlot (s.disk.read entry.dirBid) entry.inodeBid)).read b = s.disk.read b :=
    fun b hb other => Image.read_write_of_ne _ _ (by omega)
  have stored : setInodes (clearSlot (s.disk.read entry.dirBid) entry.inodeBid) entry.inodeBid 0 =
      .ok (withoutSlot (s.disk.read entry.dirBid) entry.inodeBid) :=
    if_pos (by unfold SFS_DB_NINODES at small; omega)
  obtain ⟨fs, chain, short, -⟩ := sound₁.frameChain role
  generalize reached : ({ s with disk := s.disk.write entry.dirBid (withoutSlot (s.disk.read entry.dirBid) entry.inodeBid) } :
    State) = s₁ at coherent₁
  have disk₁ : s.disk.write entry.dirBid (withoutSlot (s.disk.read entry.dirBid) entry.inodeBid) = s₁.disk := by rw [← reached]
  rw [disk₁] at sound₁ written others chain
  have members := FrameChain.mem chain sound₁ role
  have visited := @freeFrames_visits s₁ s₁.disk fs _ chain (fun _ _ _ => rfl)
    (fun f m => ⟨sound₁.role_lt (members f m).1, sound₁.role_ne_one (members f m).1⟩)
    (fun f m j hj => by
      by_cases used : content (s₁.disk.read f) j = 0
      · omega
      · exact (sound₁.marked (sound₁.content_owned (members f m).1 hj used)).1)
  have run₂ : freeFrames steps _ s₁ = .ok _ := visited.run (Nat.lt_of_le_of_lt short (by decide))
  have run₃ := sfsFreeBlock_ok (s₁.releaseAll (blocksOf s₁.disk fs)) hi
  have freed := (releaseAll_released s₁ (blocksOf s₁.disk fs)).trans (release_released _ entry.inodeBid)
  generalize (s₁.releaseAll (blocksOf s₁.disk fs)).release entry.inodeBid = s₃ at run₃ freed
  have inside : ∀ b ∈ blocksOf s₁.disk fs ++ [entry.inodeBid], b = entry.inodeBid ∨ InFile own entry.inodeBid b := by
    intro b member
    rcases List.mem_append.mp member with below | itself
    · rcases mem_blocksOf below with frame | ⟨f, m, j, hj, rfl, used⟩
      · exact Or.inr (members b frame).2
      · exact Or.inr (.content (sound₁.content_owned (members f m).1 hj used) (members f m).2)
    · exact Or.inl (List.mem_singleton.mp itself)
  have still : ∀ b, own b ≠ none → ¬ (b = entry.inodeBid ∨ InFile own entry.inodeBid b) → (s₃.disk.read 1).bit b = true :=
    fun b used kept => (freed.bits b (sound₁.lt used)).mpr ⟨sound₁.bit used, fun m => kept (inside b m)⟩
  have keep : ∀ b < 4096, b ≠ 1 → b ≠ entry.dirBid → s₃.disk.read b = s.disk.read b :=
    fun b hb map other => (freed.kept b hb map).trans (others b hb other)
  have keepDir : s₃.disk.read entry.dirBid = withoutSlot (s.disk.read entry.dirBid) entry.inodeBid :=
    (freed.kept _ high (by omega)).trans written
  refine ⟨s₃, ?_, ⟨freed.coherent coherent₁, ⟨?_, ?_, ?_, fun {b l} used => ?_, fun l alive named => ?_⟩, fun {i} inode => ?_⟩,
    ?_, keepDir, keep, fun b hb set => ?_⟩
  · rw [sfsRemove, index, ok_bind]
    dsimp only
    rw [here, stored, ok_bind, reached, disk₁, run₂, ok_bind, run₃, ok_bind]
  · rw [dropFile_of_role h.sound.role_zero iZero.symm (by decide) (by decide), h.sound.boot]
  · unfold dropFile
    split
    · rfl
    · exact h.sound.map
  · refine (freed.bits 1 (by decide)).mpr ⟨sound₁.mapBit, fun m => ?_⟩
    rcases inside 1 m with same | file
    · exact iMap same.symm
    · exact file.owned h.sound.map
  · have before := dropFile_eq used
    refine ⟨(h.sound.marked before).1, still b (by simp [before]) fun isGone => ?_⟩
    rw [dropFile, if_pos isGone] at used
    cases used
  · have before : layout.Live own l := by
      obtain ⟨l', hostOwned, fits⟩ := alive.owned
      exact Scheme.live_of_role fits (role_of_own (dropFile_eq hostOwned))
    have used := owned_of_live before
    have same : l.read s₃.disk = l.read s₁.disk := by
      rw [Loc.read, Loc.read, freed.kept _ (sound₁.lt used) (sound₁.ne_one used)]
    rw [same] at named ⊢
    refine dropFile_refs sound₁.refs (fun m owner exists_ => ?_) l alive named
    obtain rfl := Option.some.inj (owned.symm.trans owner)
    -- The slot exists only if the block is a directory, and then no other slot holds the inode.
    by_cases inRange : slotIndex < SFS_DB_NINODES
    · have dir : Owners.role own entry.dirBid = some .dir := exists_.2.trans (if_pos inRange)
      show inodes (s₁.disk.read entry.dirBid) slotIndex ≠ entry.inodeBid
      rw [written]
      refine withoutSlot_slot small inRange (fun j hj holds => ?_) iZero
      have holder := (h.slot_role dir hj (by rw [holds]; exact iZero)).1
      rw [holds, owned] at holder
      simpa using holder.symm
    · have := exists_.1
      simp [layout, Loc.hostKind, inRange] at this
  · have before : Owners.role own i = some .inode := by
      obtain ⟨l, used, kind⟩ := Scheme.role_eq_some inode
      rw [role_of_own (dropFile_eq used)]
      exact congrArg some kind
    have usable := h.usable before
    by_cases reused : i = entry.dirBid
    · rw [reused] at usable ⊢
      rw [keepDir]
      exact usable.withoutSlot small
    · rw [keep i (h.sound.role_lt before) (h.sound.role_ne_one before) reused]
      exact usable
  · rw [freed.fdtable, ← reached]
  · obtain ⟨before, kept⟩ := (freed.bits b hb).mp set
    rw [← others 1 (by decide) (by omega)]
    refine ⟨before, fun below => kept ?_⟩
    refine anchored_blocksOf sound₁ role chain (fun f m => (members f m).1)
      (below.mono (fun _ _ owner => owner) fun l holds => ?_)
    have used := owned_of_live holds.1
    rw [Loc.read, Loc.read, freed.kept _ (sound₁.lt used) (sound₁.ne_one used)]

/-- The slot with the number of the inode block, which `sfs_remove` clears as well, is empty or the file's own. -/
def SlotSpared (d : Image) (entry : Fd) : Prop :=
  inodes (d.read entry.dirBid) entry.inodeBid = 0 ∨ inodes (d.read entry.dirBid) entry.inodeBid = entry.inodeBid

theorem InFile.anchored {d' : Image} {inode b : Nat} (sound : Sound own d) (file : b = inode ∨ InFile own inode b)
    (anchored : layout.Anchored own (Loc.read d) 0 b)
    (same : ∀ l, layout.Holds own (Loc.read d) l → l.host = inode ∨ InFile own inode l.host → l.read d' = l.read d) :
    layout.Anchored own (Loc.read d') inode b := by
  induction anchored with
  | root =>
    rcases file with rfl | file
    · exact .root
    · rcases file.role with role | role
      · exact absurd rfl (sound.role_ne_zero role (by decide))
      · exact absurd rfl (sound.role_ne_zero role (by decide))
  | @step b l owned live named _ ih =>
    rcases file with rfl | file
    · exact .root
    · have above : l.host = inode ∨ InFile own inode l.host := by
        cases file with
        | firstFrame h =>
          obtain rfl := Option.some.inj (owned.symm.trans h)
          exact .inl rfl
        | nextFrame h frame =>
          obtain rfl := Option.some.inj (owned.symm.trans h)
          exact .inr frame
        | content h frame =>
          obtain rfl := Option.some.inj (owned.symm.trans h)
          exact .inr frame
      exact .step owned live ((same l ⟨live, named ▸ owned⟩ above).trans named) (ih above)

theorem Tight.inFile {inode c : Nat} {l : Loc} (tight : Tight own d) (sound : Sound own d)
    (role : Owners.role own inode = some .inode)
    (owned : own c = some l) (above : l.host = inode ∨ InFile own inode l.host) : InFile own inode c := by
  have other : c ≠ 0 := by
    rintro rfl
    obtain rfl := Option.some.inj (sound.boot.symm.trans owned)
    have zero : Owners.role own 0 = some .super := sound.role_zero
    rcases above with here | file
    · rw [show inode = 0 from here.symm, zero] at role
      cases role
    · rcases file.role with frame | data
      · exact absurd rfl (sound.role_ne_zero frame (by decide))
      · exact absurd rfl (sound.role_ne_zero data (by decide))
  have live := (tight.holds sound owned other).1.1
  rcases above with here | file
  · obtain ⟨i, rfl⟩ := hostKind_inode (live_cases live here role)
    obtain rfl : i = inode := here
    exact .firstFrame owned
  · rcases file.role with frame | data
    · rcases hostKind_frame (live_cases live rfl frame) with ⟨f, rfl⟩ | ⟨f, j, -, rfl⟩
      · exact .nextFrame owned file
      · exact .content owned file
    · exact absurd (live_cases live rfl data) (hostKind_ne_data l)

/-- `sfs_remove` frees all it unlinks, provided that its second store hits no other file. -/
theorem remove_tight {entry : Fd} (h : Healthy own s) (live : LiveFd own entry) (small : entry.inodeBid < SFS_DB_NINODES)
    (spared : SlotSpared s.disk entry)
    (written : s'.disk.read entry.dirBid = withoutSlot (s.disk.read entry.dirBid) entry.inodeBid)
    (kept : ∀ b < 4096, b ≠ 1 → b ≠ entry.dirBid → s'.disk.read b = s.disk.read b)
    (freed : ∀ b < 4096, (s'.disk.read 1).bit b = true →
      (s.disk.read 1).bit b = true ∧ ¬ layout.Anchored own (Loc.read s'.disk) entry.inodeBid b)
    (tight : Tight own s.disk) : Tight (dropFile own entry.inodeBid) s'.disk := by
  obtain ⟨slotIndex, owned⟩ := live.slot
  have role := live.role
  have zero := h.sound.role_ne_zero role (by decide)
  -- The slot names the inode, so its block is still a directory.
  have slotLive := (tight.holds h.sound owned zero).1.1
  have dir : Owners.role own entry.dirBid = some .dir := by
    obtain ⟨kind, some⟩ := Option.isSome_iff_exists.mp slotLive.1
    have inRange : slotIndex < SFS_DB_NINODES := by
      by_contra outside
      rw [show layout.hostKind (.slot entry.dirBid slotIndex) = none from if_neg outside] at some
      cases some
    exact slotLive.2.trans (if_pos inRange)
  have elsewhere : ∀ l, layout.Holds own (Loc.read s.disk) l → l.host ≠ entry.dirBid → l.read s'.disk = l.read s.disk := by
    intro l holds other
    have used := owned_of_live holds.1
    rw [Loc.read, Loc.read, kept _ (h.sound.lt used) (h.sound.ne_one used) other]
  refine tight.release (fun b => b = entry.inodeBid ∨ InFile own entry.inodeBid b) (fun b hb set => ?_)
    (fun c l owner above => .inr (tight.inFile h.sound role owner above)) (fun c l owner stays => ?_) fun l holds stays => ?_
  · obtain ⟨before, gone⟩ := freed b hb set
    refine ⟨before, fun file => gone ?_⟩
    have used : own b ≠ none := by
      rcases file with rfl | file
      · simp [owned]
      · exact file.owned
    refine InFile.anchored h.sound file (tight.anchored h.sound used) fun l holds above => elsewhere l holds fun here => ?_
    rw [here] at above
    rcases above with same | file
    · rw [same, role] at dir
      cases dir
    · rcases file.role with frame | data
      · rw [frame] at dir; cases dir
      · rw [data] at dir; cases dir
  · rw [dropFile, if_neg stays, owner]
  · by_cases here : l.host = entry.dirBid
    · rcases hostKind_dir (live_cases holds.1 here dir) with ⟨dir', rfl⟩ | ⟨dir', k, -, rfl⟩
      · obtain rfl : dir' = entry.dirBid := here
        show nextDir (s'.disk.read entry.dirBid) = nextDir (s.disk.read entry.dirBid)
        rw [written, nextDir, nextDir, withoutSlot_of_lt _ small (by decide)]
      · obtain rfl : dir' = entry.dirBid := here
        have apart : inodes (s.disk.read entry.dirBid) k ≠ entry.inodeBid := fun same => stays (.inl same)
        show inodes (s'.disk.read entry.dirBid) k = inodes (s.disk.read entry.dirBid) k
        rw [written, withoutSlot_kept small _ apart]
        rintro rfl
        have named := h.sound.ne_zero_of_holds holds
        exact spared.elim named apart
    · exact elsewhere l holds here

end StorageStack.Sfs
