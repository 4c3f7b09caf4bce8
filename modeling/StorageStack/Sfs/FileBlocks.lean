import StorageStack.Sfs.Growth

/-!
# The blocks of a range of a file

`sfs_get_file_content` walks the frames of a file and returns the blocks of consecutive entries, which it
fills on the way. `sfs_resize_file` links new, full frames behind the first one.
-/

namespace StorageStack.Sfs
open Lib

def frameNext (d : Image) (b : Nat) : Nat := nextFrame (d.read b)

/-- `fs` are the frames of the file with inode block `inode`, in order. -/
def FrameChain (d : Image) (inode : Nat) (fs : List Nat) : Prop :=
  Chain (frameNext d) (firstFrame (d.read inode)) fs

/-- Entry `p` of the frames `fs`, counted through all of them. -/
def entryAt (d : Image) (fs : List Nat) (p : Nat) : Nat := content (d.read (fs.getD (p / 127) 0)) (p % 127)

/-- How many of the `n` entries from `i` on are zero. -/
def holesAt (d : Image) (fs : List Nat) (i n : Nat) : Nat := ((List.range' i n).filter (entryAt d fs · = 0)).length

/-- What filling entries of the frames `fs` leaves. -/
structure Attached (fs : List Nat) (own : Owners) (s : State) (own' : Owners) (s' : State) : Prop where
  sound : Sound own' s'.disk
  grows : Grows (· ∈ fs) own own' s s'
  next : ∀ f ∈ fs, nextFrame (s'.disk.read f) = nextFrame (s.disk.read f)
  entry : ∀ f ∈ fs, ∀ j, content (s'.disk.read f) j = content (s.disk.read f) j ∨
    (content (s.disk.read f) j = 0 ∧ own (content (s'.disk.read f) j) = none)
  fresh : ∀ b, own b = none → own' b ≠ none → s'.disk.read b = .zero ∧
    ∃ f ∈ fs, ∃ j < SFS_FRAME_COUNT, own' b = some (.content f j) ∧ content (s'.disk.read f) j = b

variable {own own' : Owners} {s s' : State} {fs : List Nat}

theorem Attached.refl (sound : Sound own s.disk) (fs : List Nat) : Attached fs own s own s :=
  ⟨sound, Grows.refl _ _ _, fun _ _ => rfl, fun _ _ _ => Or.inl rfl, fun _ none some => absurd none some⟩

theorem Attached.sameInodes (h : Attached fs own s own' s') : SameInodes own own' :=
  h.grows.sameInodes fun b free used => by
    obtain ⟨-, f, -, j, -, owned, -⟩ := h.fresh b free used
    rw [role_of_own owned]
    exact fun same => Kind.noConfusion (Option.some.inj same)

theorem entryAt_head {d : Image} {f p : Nat} (h : p < 127) : entryAt d (f :: fs) p = content (d.read f) p := by
  rw [entryAt, Nat.div_eq_of_lt h, Nat.mod_eq_of_lt h]
  rfl

theorem entryAt_tail (d : Image) (f p : Nat) : entryAt d (f :: fs) (127 + p) = entryAt d fs p := by
  rw [entryAt, entryAt, show (127 + p) / 127 = p / 127 + 1 by omega, show (127 + p) % 127 = p % 127 by omega]
  rfl

theorem range'_visit (count remaining : Nat) :
    List.range' count remaining = List.range' count (visit remaining count) ++
      List.range' (count + visit remaining count) (remaining - visit remaining count) := by
  have total : visit remaining count + (remaining - visit remaining count) = remaining := by
    unfold visit
    omega
  rw [List.range'_append_1, total]

/-- What is past the first frame is counted from its end. -/
theorem range'_later {count remaining : Nat} (h : count < 127) :
    List.range' (count + visit remaining count) (remaining - visit remaining count) =
      (List.range' 0 (remaining - visit remaining count)).map (127 + ·) := by
  rw [List.map_add_range', Nat.add_zero]
  by_cases more : remaining - visit remaining count = 0
  · rw [more]; rfl
  · rw [show count + visit remaining count = 127 by unfold visit SFS_FRAME_COUNT at *; omega]

theorem holesAt_le (d : Image) (fs : List Nat) (i n : Nat) : holesAt d fs i n ≤ n :=
  (List.length_filter_le _ _).trans (by rw [List.length_range'])

theorem holesAt_cons {d : Image} {f count remaining : Nat} (h : count < 127) :
    holesAt d (f :: fs) count remaining = holes (d.read f) count (visit remaining count) +
      holesAt d fs 0 (remaining - visit remaining count) := by
  unfold holesAt holes
  rw [range'_visit, List.filter_append, List.length_append, range'_later h, List.filter_map, List.length_map]
  apply congrArg₂
  · apply congrArg List.length
    apply List.filter_congr
    intro p member
    have bound := (List.mem_range'_1.mp member).2
    rw [entryAt_head (by unfold visit SFS_FRAME_COUNT at bound; omega)]
  · apply congrArg List.length
    apply List.filter_congr
    intro p _
    rw [Function.comp_apply, entryAt_tail]

theorem entryAt_congr_frames {d d' : Image} {p : Nat} (same : ∀ f ∈ fs, d'.read f = d.read f) (inside : p < 127 * fs.length) :
    entryAt d' fs p = entryAt d fs p := by
  have index : p / 127 < fs.length := by omega
  rw [entryAt, entryAt, List.getD_eq_getElem?_getD, List.getElem?_eq_getElem index, Option.getD_some,
    same _ (List.getElem_mem index)]

theorem holesAt_congr {d d' : Image} {i n : Nat} (same : ∀ f ∈ fs, d'.read f = d.read f) (inside : i + n ≤ 127 * fs.length) :
    holesAt d' fs i n = holesAt d fs i n := by
  apply congrArg List.length
  apply List.filter_congr
  intro p member
  have bound := (List.mem_range'_1.mp member).2
  rw [entryAt_congr_frames same (by omega)]

theorem frameRound_ok {cap remaining count f : Nat} {bids : List Nat} (sound : Sound own s.disk)
    (loaded : nfreemapBlocks s.sb ≠ 0) (role : Owners.role own f = some .frame)
    (free : holes (s.disk.read f) count (visit remaining count) ≤ (s.disk.read 1).clearCount)
    (room : bids.length + remaining ≤ cap) :
    ∃ own' s' frame, contentLoop cap remaining count (s.disk.read f) bids s = .ok ⟨frame,
        bids ++ (List.range' count (visit remaining count)).map (content frame), remaining - visit remaining count, s'⟩ ∧
      Attached [f] own s own' { s' with disk := s'.disk.write f frame } ∧ nextFrame frame = nextFrame (s.disk.read f) ∧
      (∀ j, count ≤ j → j < count + visit remaining count → content frame j ≠ 0) ∧
      (∀ j, ¬ (count ≤ j ∧ j < count + visit remaining count) → content frame j = content (s.disk.read f) j) ∧
      ((s'.disk.write f frame).read 1).clearCount + holes (s.disk.read f) count (visit remaining count) =
        (s.disk.read 1).clearCount := by
  obtain ⟨own', s', frame, run, filled, count'⟩ := contentLoop_ok sound loaded (sound.frameOk role) free room
  have small := sound.role_lt role
  have notMap := sound.role_ne_one role
  have role' := filled.grows.role role
  have map : (s'.disk.write f frame).read 1 = s'.disk.read 1 := Image.read_write_of_ne _ _ (by omega)
  have here : (s'.disk.write f frame).read f = frame := Image.read_write _ _ _
  have writes := Grows.write filled.sound small notMap frame
  have grows : Grows (· ∈ [f]) own own' s { s' with disk := s'.disk.write f frame } :=
    (filled.grows.mono (fun _ no => no.elim : ∀ b, False → b = f)).trans writes (fun _ _ same => same)
      |>.mono fun b same => List.mem_singleton.mpr same
  refine ⟨own', s', frame, run, ⟨filled.sound.write_frame role' filled.ok.next filled.ok.entries, grows, ?_, ?_, ?_⟩,
    filled.next, fun j low high => filled.inside j ⟨low, high⟩, filled.outside, by rw [map]; exact count'⟩
  · intro g member
    obtain rfl := List.mem_singleton.mp member
    show nextFrame ((s'.disk.write g frame).read g) = _
    rw [here, filled.next]
  · intro g member j
    obtain rfl := List.mem_singleton.mp member
    show content ((s'.disk.write g frame).read g) j = _ ∨ _ ∧ own (content ((s'.disk.write g frame).read g) j) = none
    rw [here]
    by_cases hole : content (s.disk.read g) j = 0
    · by_cases still : content frame j = 0
      · exact Or.inl (still.trans hole.symm)
      · exact Or.inr ⟨hole, filled.new j hole still⟩
    · exact Or.inl (filled.old j hole)
  · intro b unowned used
    obtain ⟨zero, j, _, hj, owned, entry⟩ := filled.fresh b unowned used
    have other : b ≠ f := by rintro rfl; exact owned_of_role role unowned
    have hb := filled.sound.lt used
    refine ⟨(Image.read_write_of_ne _ _ (by omega)).trans zero, f, List.mem_singleton_self f, j, hj, owned, ?_⟩
    show content ((s'.disk.write f frame).read f) j = b
    rw [here, entry]

theorem Attached.cons {f : Nat} {own₁ : Owners} {s₁ : State} (h : Attached [f] own s own₁ s₁)
    (h' : Attached fs own₁ s₁ own' s') (absent : f ∉ fs) (roles : ∀ g ∈ f :: fs, Owners.role own g = some .frame) :
    Attached (f :: fs) own s own' s' := by
  have owned : ∀ g ∈ f :: fs, own g ≠ none := fun g member => owned_of_role (roles g member)
  have head : s'.disk.read f = s₁.disk.read f :=
    h'.grows.kept (h.grows.owned (owned f (List.mem_cons_self ..))) absent
  have tail : ∀ g ∈ fs, s₁.disk.read g = s.disk.read g := by
    intro g member
    apply h.grows.kept (owned g (List.mem_cons_of_mem _ member))
    intro same
    obtain rfl := List.mem_singleton.mp same
    exact absent member
  have grows : Grows (· ∈ f :: fs) own own' s s' :=
    (h.grows.mono fun b member => List.mem_cons.mpr (Or.inl (List.mem_singleton.mp member))).trans h'.grows
      fun b _ member => List.mem_cons_of_mem _ member
  refine ⟨h'.sound, grows, fun g member => ?_, fun g member j => ?_, fun b free used => ?_⟩
  · rcases List.mem_cons.mp member with rfl | member
    · rw [head, h.next g (List.mem_singleton_self g)]
    · rw [h'.next g member, tail g member]
  · rcases List.mem_cons.mp member with rfl | member
    · rw [head]
      exact h.entry g (List.mem_singleton_self g) j
    · rcases h'.entry g member j with same | ⟨hole, new⟩
      · exact Or.inl (by rw [same, tail g member])
      · exact Or.inr ⟨by rwa [tail g member] at hole, by_contra fun used => h.grows.owned used new⟩
  · by_cases earlier : own₁ b = none
    · obtain ⟨zero, g, member, j, hj, holder, entry⟩ := h'.fresh b earlier used
      exact ⟨zero, g, List.mem_cons_of_mem _ member, j, hj, holder, entry⟩
    · obtain ⟨zero, g, member, j, hj, holder, entry⟩ := h.fresh b free earlier
      obtain rfl := List.mem_singleton.mp member
      have other : b ∉ fs := fun m => owned b (List.mem_cons_of_mem _ m) free
      exact ⟨(h'.grows.kept earlier other).trans zero, g, List.mem_cons_self .., j, hj, h'.grows.grow holder,
        by rw [head, entry]⟩

theorem frameLoop_ok {cap fuel remaining count frameBid : Nat} {bids : List Nat} (sound : Sound own s.disk)
    (loaded : nfreemapBlocks s.sb ≠ 0) (chain : Chain (frameNext s.disk) frameBid fs)
    (roles : ∀ f ∈ fs, Owners.role own f = some .frame) (inFrame : count < 127)
    (inside : remaining = 0 ∨ count + remaining ≤ 127 * fs.length) (enough : remaining < fuel)
    (free : holesAt s.disk fs count remaining ≤ (s.disk.read 1).clearCount) (room : bids.length + remaining ≤ cap) :
    ∃ own' s', frameLoop cap fuel remaining count frameBid bids s =
        .ok (bids ++ (List.range' count remaining).map (entryAt s'.disk fs), s') ∧
      Attached fs own s own' s' ∧ (∀ p, count ≤ p → p < count + remaining → entryAt s'.disk fs p ≠ 0) ∧
      (∀ p < 127 * fs.length, ¬ (count ≤ p ∧ p < count + remaining) → entryAt s'.disk fs p = entryAt s.disk fs p) ∧
      (s'.disk.read 1).clearCount + holesAt s.disk fs count remaining = (s.disk.read 1).clearCount := by
  induction fs generalizing own s count remaining frameBid bids fuel with
  | nil =>
    obtain rfl : remaining = 0 := by simp at inside; omega
    obtain ⟨fuel, rfl⟩ := Nat.exists_eq_succ_of_ne_zero (by omega : fuel ≠ 0)
    exact ⟨own, s, by simp [frameLoop], Attached.refl sound _, fun p low high => by omega, fun _ _ _ => rfl, by simp [holesAt]⟩
  | cons f fs ih =>
    obtain ⟨fuel, rfl⟩ := Nat.exists_eq_succ_of_ne_zero (by omega : fuel ≠ 0)
    by_cases done : remaining = 0
    · subst done
      exact ⟨own, s, by simp [frameLoop], Attached.refl sound _, fun p low high => by omega, fun _ _ _ => rfl, by simp [holesAt]⟩
    obtain ⟨rfl, named, rest⟩ := id chain
    have role := roles f (List.mem_cons_self ..)
    obtain ⟨absent, -⟩ := List.nodup_cons.mp chain.nodup
    rw [holesAt_cons inFrame] at free ⊢
    obtain ⟨own₁, s₁, frame, run₁, round, next, filled, kept, count₁⟩ := @frameRound_ok own s cap remaining count f bids
      sound loaded role (by omega) room
    have keep : ∀ g ∈ fs, (s₁.disk.write f frame).read g = s.disk.read g := by
      intro g member
      apply round.grows.kept (owned_of_role (roles g (List.mem_cons_of_mem _ member)))
      intro same
      obtain rfl := List.mem_singleton.mp same
      exact absent member
    have tailFits : remaining - visit remaining count = 0 ∨ 0 + (remaining - visit remaining count) ≤ 127 * fs.length := by
      unfold visit SFS_FRAME_COUNT
      simp only [List.length_cons] at inside
      omega
    have tailHoles : holesAt (s₁.disk.write f frame) fs 0 (remaining - visit remaining count) =
        holesAt s.disk fs 0 (remaining - visit remaining count) := by
      rcases tailFits with none | fits
      · rw [none]; rfl
      · exact holesAt_congr keep fits
    obtain ⟨own', s', run', attached, filled', kept', count'⟩ := @ih own₁ { s₁ with disk := s₁.disk.write f frame } fuel
      (remaining - visit remaining count) 0 (nextFrame frame)
      (bids ++ (List.range' count (visit remaining count)).map (content frame)) round.sound
      (by rw [round.grows.sb]; exact loaded)
      (by
        rw [next]
        exact Chain.congr rest fun g member => by rw [frameNext, frameNext, keep g member])
      (fun g member => round.grows.role (roles g (List.mem_cons_of_mem _ member))) (by decide) tailFits
      (by unfold visit SFS_FRAME_COUNT; omega)
      (by dsimp only; rw [tailHoles]; omega)
      (by
        rw [List.length_append, List.length_map, List.length_range']
        unfold visit
        omega)
    have here : s'.disk.read f = frame := by
      rw [attached.grows.kept (round.grows.owned (owned_of_role role)) absent]
      exact Image.read_write _ _ _
    have first : ∀ p, p < 127 → entryAt s'.disk (f :: fs) p = content frame p := by
      intro p high
      rw [entryAt_head high, here]
    have visited : count + visit remaining count ≤ 127 := by unfold visit SFS_FRAME_COUNT; omega
    refine ⟨own', s', ?_, round.cons attached absent roles, fun p low high => ?_, fun p hp outside => ?_, ?_⟩
    · rw [frameLoop, if_neg done, run₁, ok_bind]
      dsimp only
      rw [run', range'_visit count remaining, List.map_append, range'_later inFrame, List.map_map, List.append_assoc]
      have head : (List.range' count (visit remaining count)).map (content frame) =
          (List.range' count (visit remaining count)).map (entryAt s'.disk (f :: fs)) :=
        List.map_congr_left fun p member => (first p (Nat.lt_of_lt_of_le (List.mem_range'_1.mp member).2 visited)).symm
      have tail : (entryAt s'.disk (f :: fs) ∘ fun p => 127 + p) = entryAt s'.disk fs :=
        funext fun p => entryAt_tail s'.disk f p
      rw [head, tail]
    · by_cases front : p < count + visit remaining count
      · rw [first p (by omega)]
        exact filled p low front
      · have later : 127 ≤ p := by unfold visit SFS_FRAME_COUNT at front; omega
        have entry := filled' (p - 127) (Nat.zero_le _) (by unfold visit SFS_FRAME_COUNT at *; omega)
        rwa [← entryAt_tail s'.disk f, show 127 + (p - 127) = p by omega] at entry
    · by_cases front : p < 127
      · rw [first p front, entryAt_head front]
        exact kept p (by unfold visit; omega)
      · obtain ⟨q, rfl⟩ := Nat.exists_eq_add_of_le (Nat.le_of_not_lt front)
        simp only [List.length_cons] at hp
        rw [entryAt_tail, entryAt_tail, kept' q (by omega) (by unfold visit SFS_FRAME_COUNT; omega)]
        exact entryAt_congr_frames keep (by omega)
    · dsimp only at count'
      rw [tailHoles] at count'
      omega

/-! ### Blocks of one file -/

/-- The frames and content blocks allocated below an inode. -/
inductive InFile (own : Owners) (inode : Nat) : Nat → Prop
  | firstFrame {b : Nat} (h : own b = some (.firstFrame inode)) : InFile own inode b
  | nextFrame {b f : Nat} (h : own b = some (.nextFrame f)) (frame : InFile own inode f) : InFile own inode b
  | content {b f j : Nat} (h : own b = some (.content f j)) (frame : InFile own inode f) : InFile own inode b

theorem InFile.owned {inode b : Nat} (h : InFile own inode b) : own b ≠ none := by
  cases h with
  | firstFrame h => simp [h]
  | nextFrame h _ => simp [h]
  | content h _ => simp [h]

theorem InFile.unique {inode inode' b : Nat} (h : InFile own inode b) (h' : InFile own inode' b) : inode = inode' := by
  induction h with
  | firstFrame h =>
    cases h' with
    | firstFrame h' => simpa [h] using h'
    | nextFrame h' _ => simp [h] at h'
    | content h' _ => simp [h] at h'
  | nextFrame h _ ih =>
    cases h' with
    | firstFrame h' => simp [h] at h'
    | nextFrame h' frame' =>
      obtain rfl : _ = _ := by simpa [h] using h'
      exact ih frame'
    | content h' _ => simp [h] at h'
  | content h _ ih =>
    cases h' with
    | firstFrame h' => simp [h] at h'
    | nextFrame h' _ => simp [h] at h'
    | content h' frame' =>
      obtain ⟨rfl, _⟩ : _ ∧ _ := by simpa [h] using h'
      exact ih frame'

theorem InFile.role {inode b : Nat} (h : InFile own inode b) :
    Owners.role own b = some .frame ∨ Owners.role own b = some .data := by
  cases h with
  | firstFrame h => exact Or.inl (role_of_own h)
  | nextFrame h _ => exact Or.inl (role_of_own h)
  | content h _ => exact Or.inr (role_of_own h)

theorem InFile.grow {inode b : Nat} {touched : Nat → Prop} (grows : Grows touched own own' s s')
    (h : InFile own inode b) : InFile own' inode b := by
  induction h with
  | firstFrame h => exact .firstFrame (grows.grow h)
  | nextFrame h _ ih => exact .nextFrame (grows.grow h) ih
  | content h _ ih => exact .content (grows.grow h) ih

theorem FrameChain.mem {inode : Nat} (chain : FrameChain s.disk inode fs) (sound : Sound own s.disk)
    (role : Owners.role own inode = some .inode) :
    ∀ f ∈ fs, Owners.role own f = some .frame ∧ InFile own inode f := by
  refine Chain.forall_mem chain (P := fun f => Owners.role own f = some .frame ∧ InFile own inode f)
    (fun named => ?_) (fun f h named => ?_)
  · have owned := sound.firstFrame_owned role named
    exact ⟨role_of_own owned, .firstFrame owned⟩
  · have owned := sound.nextFrame_owned h.1 named
    exact ⟨role_of_own owned, .nextFrame owned h.2⟩

theorem FrameChain.anchored {inode : Nat} (chain : FrameChain s.disk inode fs) (sound : Sound own s.disk)
    (role : Owners.role own inode = some .inode) : ∀ f ∈ fs, layout.Anchored own (Loc.read s.disk) inode f := by
  suffices both : ∀ f ∈ fs, Owners.role own f = some .frame ∧ layout.Anchored own (Loc.read s.disk) inode f from
    fun f m => (both f m).2
  refine Chain.forall_mem chain (fun named => ?_) (fun f h named => ?_)
  · have owned := sound.firstFrame_owned role named
    exact ⟨role_of_own owned, .step owned (live_firstFrame role) rfl .root⟩
  · have owned := sound.nextFrame_owned h.1 named
    exact ⟨role_of_own owned, .step owned (live_nextFrame h.1) rfl h.2⟩

/-- What is attached to frames hangs below whatever the frames hang below. -/
theorem Attached.ext {root : Nat} (h : Attached fs own s own' s') (sound : Sound own s.disk)
    (roles : ∀ f ∈ fs, Owners.role own f = some .frame) (below : ∀ f ∈ fs, layout.Anchored own (Loc.read s.disk) root f) :
    layout.Extends root own (Loc.read s.disk) own' (Loc.read s'.disk) := by
  refine .of_hosts (fun _ _ => h.grows.grow) (fun l holds => ?_) fun b free used => ?_
  · by_cases member : l.host ∈ fs
    · rcases hostKind_frame (live_cases holds.1 rfl (roles _ member)) with ⟨f, rfl⟩ | ⟨f, j, -, rfl⟩
      · exact h.next f member
      · exact (h.entry f member j).resolve_right fun hole => sound.ne_zero_of_holds holds hole.1
    · rw [Loc.read, Loc.read, h.grows.kept (owned_of_live holds.1) member]
  · obtain ⟨-, f, member, j, hj, owned, entry⟩ := h.fresh b free used
    exact ⟨.content f j, owned, live_content (h.grows.role (roles f member)) hj, entry, below f member⟩

/-! ### `sfs_get_file_content` -/

theorem sfsGetFileContent_ok (cap : Nat) (fd : Fin 32) (cur length : Nat) {inode : Nat} (sound : Sound own s.disk)
    (loaded : nfreemapBlocks s.sb ≠ 0) (here : (s.fdtable fd).inodeBid = inode)
    (role : Owners.role own inode = some .inode) (chain : FrameChain s.disk inode fs)
    (inside : numBlocks cur length = 0 ∨ cur / 512 % 127 + numBlocks cur length ≤ 127 * fs.length)
    (free : holesAt s.disk fs (cur / 512 % 127) (numBlocks cur length) ≤ (s.disk.read 1).clearCount)
    (room : numBlocks cur length ≤ cap) :
    ∃ own' s', sfsGetFileContent cap s fd cur length =
        .ok ((List.range' (cur / 512 % 127) (numBlocks cur length)).map (entryAt s'.disk fs), s') ∧
      Attached fs own s own' s' ∧
      (∀ p, cur / 512 % 127 ≤ p → p < cur / 512 % 127 + numBlocks cur length → entryAt s'.disk fs p ≠ 0) ∧
      (∀ p < 127 * fs.length, ¬ (cur / 512 % 127 ≤ p ∧ p < cur / 512 % 127 + numBlocks cur length) →
        entryAt s'.disk fs p = entryAt s.disk fs p) ∧
      (s'.disk.read 1).clearCount + holesAt s.disk fs (cur / 512 % 127) (numBlocks cur length) =
        (s.disk.read 1).clearCount := by
  rw [← here] at chain role
  exact @frameLoop_ok own _ fs cap _ _ _ _ [] sound loaded chain (fun f member => (chain.mem sound role f member).1)
    (Nat.mod_lt _ (by decide)) inside (Nat.lt_succ_self _) free (by simpa using room)

/-! ### New frames -/

theorem fillFrame_ok {f remaining i : Nat} {frame : Block} (sound : Sound own s.disk) (loaded : nfreemapBlocks s.sb ≠ 0)
    (ok : FrameOk own f frame) (inside : i + remaining ≤ SFS_FRAME_COUNT)
    (empty : ∀ j, i ≤ j → content frame j = 0) (free : remaining ≤ (s.disk.read 1).clearCount) :
    ∃ own' s' frame', fillFrame remaining i frame s = .ok (frame', s') ∧
      Filled f (fun j => i ≤ j ∧ j < i + remaining) own s frame own' s' frame' ∧
      (s'.disk.read 1).clearCount + remaining = (s.disk.read 1).clearCount := by
  induction remaining generalizing own s frame i with
  | zero =>
    refine ⟨own, s, frame, rfl, (Filled.refl sound ok).congr fun j => ?_, Nat.add_zero _⟩
    simp only [false_iff]
    omega
  | succ remaining ih =>
    obtain ⟨b, own₁, run₁, filled₁, count₁⟩ := allocEntry_ok sound loaded ok (by omega : i < SFS_FRAME_COUNT)
      (empty i (Nat.le_refl _)) (by omega)
    obtain ⟨own', s', frame', run', filled', count'⟩ := ih filled₁.sound (by rw [filled₁.grows.sb]; exact loaded)
      filled₁.ok (i := i + 1) (by omega) (fun j low => by rw [filled₁.outside j (by omega)]; exact empty j (by omega))
      (by omega)
    refine ⟨own', s', frame', by rw [fillFrame, run₁, ok_bind]; exact run', (filled₁.trans filled').congr fun j => ?_, by omega⟩
    omega

/-- What linking the frames `news` behind `f` leaves. -/
structure Linked (f : Nat) (news : List Nat) (own : Owners) (s : State) (own' : Owners) (s' : State) : Prop where
  sound : Sound own' s'.disk
  grows : Grows (· = f) own own' s s'
  chain : (news = [] → nextFrame (s.disk.read f) = 0) → Chain (frameNext s'.disk) f (f :: news)
  unowned : ∀ g ∈ news, own g = none
  roles : ∀ g ∈ news, Owners.role own' g = some .frame
  entry : ∀ j, content (s'.disk.read f) j = content (s.disk.read f) j
  full : ∀ g ∈ news, ∀ j < SFS_FRAME_COUNT, content (s'.disk.read g) j ≠ 0 ∧ own (content (s'.disk.read g) j) = none
  zero : ∀ b, own b = none → Owners.role own' b = some .data → s'.disk.read b = .zero
  inodes : SameInodes own own'
  ext : (news = [] ∨ nextFrame (s.disk.read f) = 0) → layout.Extends f own (Loc.read s.disk) own' (Loc.read s'.disk)

theorem growFrame_ok {f : Nat} (sound : Sound own s.disk) (loaded : nfreemapBlocks s.sb ≠ 0)
    (role : Owners.role own f = some .frame) (free : 128 ≤ (s.disk.read 1).clearCount) :
    ∃ g own' s', growFrame s f = .ok (g, s') ∧ Linked f [g] own s own' s' ∧
      (s'.disk.read 1).clearCount + 128 = (s.disk.read 1).clearCount := by
  obtain ⟨g, run₁, hg, clear, -⟩ := sfsAllocBlock_ok loaded (by omega)
  have gZero := sound.clear_ne_zero clear
  have gMap := sound.clear_ne_one clear
  have gFree := sound.free_of_clear clear
  have fOwned := owned_of_role role
  have hf := sound.lt fOwned
  have fMap := sound.ne_one fOwned
  have apart : f ≠ g := by rintro rfl; exact fOwned gFree
  -- The new block is linked from `f` …
  have grows₁ := Grows.take sound hg clear (.nextFrame f)
  have sound₁ := sound.take hg clear (.nextFrame f)
  have owned₁ : Function.update own g (some (Loc.nextFrame f)) g = some (.nextFrame f) := Function.update_self ..
  have okLink : FrameOk (Function.update own g (some (.nextFrame f))) f (setNextFrame (s.disk.read f) g) :=
    ⟨fun _ => by rw [nextFrame_setNextFrame (by omega)]; exact owned₁, fun j hj named => by
      rw [content_setNextFrame] at named ⊢
      exact grows₁.grow ((sound.frameOk role).entries j hj named)⟩
  have sound₂ := sound₁.write_frame (grows₁.role role) okLink.next okLink.entries
  have grows₂ := Grows.write sound₁ hf fMap (setNextFrame (s.disk.read f) g)
  have map₂ : ((s.take g).disk.write f (setNextFrame (s.disk.read f) g)).read 1 = (s.disk.read 1).setBit g := by
    rw [Image.read_write_of_ne _ _ (by omega), read_take_map hg gMap]
  have count₂ := Bytes.clearCount_setBit (b := s.disk.read 1) (i := g) (by omega) clear
  have empty : ((s.take g).disk.write f (setNextFrame (s.disk.read f) g)).read g = .zero := by
    rw [Image.read_write_of_ne _ _ (by omega), read_take_self]
  have okNew : FrameOk (Function.update own g (some (.nextFrame f))) g .zero :=
    ⟨fun named => absurd (Bytes.word_zero 0) named, fun j _ named => absurd (Bytes.word_zero _) named⟩
  -- … then all its entries are filled and it is written.
  obtain ⟨own', s', frame, run₃, filled, count₃⟩ := @fillFrame_ok _
    { s.take g with disk := (s.take g).disk.write f (setNextFrame (s.disk.read f) g) } g SFS_FRAME_COUNT 0 .zero
    sound₂ loaded okNew (Nat.le_refl _) (fun j _ => Bytes.word_zero _)
    (by dsimp only; rw [map₂]; unfold SFS_FRAME_COUNT; omega)
  have gRole : Owners.role own' g = some .frame := filled.grows.role (role_of_own owned₁)
  have grows₄ := Grows.write filled.sound hg gMap frame
  have fRead : (s'.disk.write g frame).read f = setNextFrame (s.disk.read f) g := by
    rw [Image.read_write_of_ne _ _ (by omega), filled.grows.kept (grows₁.owned fOwned) (fun no => no)]
    exact Image.read_write _ _ _
  have gRead : (s'.disk.write g frame).read g = frame := Image.read_write _ _ _
  have unowned : ∀ b, Function.update own g (some (.nextFrame f)) b = none → own b = none := fun b h =>
    by_contra fun used => grows₁.owned used h
  refine ⟨g, own', { s' with disk := s'.disk.write g frame }, ?_,
    ⟨filled.sound.write_frame gRole filled.ok.next filled.ok.entries, ?_, fun _ => ⟨rfl, ?_, ?_, gZero, ?_⟩, ?_, ?_,
      fun j => ?_, ?_, fun b free used => ?_, fun i inode => ?_, fun last => ?_⟩, ?_⟩
  · rw [growFrame, run₁, ok_bind]
    dsimp only
    rw [empty, run₃, ok_bind]
  · refine @Grows.trans _ _ _ _ _ _ (· = f) _ ?_ grows₄ fun b used same => ?_
    · exact ((grows₁.mono (fun _ no => no.elim)).trans grows₂ fun _ _ same => same).trans filled.grows fun _ _ no => no.elim
    · subst same
      exact absurd gFree used
  · exact sound.role_ne_zero role (by decide)
  · show g = nextFrame ((s'.disk.write g frame).read f)
    rw [fRead, nextFrame_setNextFrame (by omega)]
  · show nextFrame ((s'.disk.write g frame).read g) = 0
    rw [gRead, filled.next]
    exact Bytes.word_zero 0
  · intro b member
    obtain rfl := List.mem_singleton.mp member
    exact gFree
  · intro b member
    obtain rfl := List.mem_singleton.mp member
    exact gRole
  · show content ((s'.disk.write g frame).read f) j = _
    rw [fRead, content_setNextFrame]
  · intro b member j hj
    obtain rfl := List.mem_singleton.mp member
    show content ((s'.disk.write b frame).read b) j ≠ 0 ∧ own (content ((s'.disk.write b frame).read b) j) = none
    rw [gRead]
    have named := filled.inside j ⟨Nat.zero_le _, by omega⟩
    exact ⟨named, unowned _ (filled.new j (Bytes.word_zero _) named)⟩
  · have other : b ≠ g := by
      rintro rfl
      rw [gRole] at used
      cases used
    have hb := filled.sound.role_lt used
    show (s'.disk.write g frame).read b = .zero
    rw [Image.read_write_of_ne _ _ (by omega)]
    refine (filled.fresh b ?_ (owned_of_role used)).1
    rw [Function.update_of_ne other, free]
  · have before := filled.sameInodes i inode
    have other : i ≠ g := by
      rintro rfl
      rw [role_of_own owned₁] at before
      cases before
    unfold Owners.role Scheme.role at before ⊢
    rwa [Function.update_of_ne other] at before
  · replace last := last.resolve_left (List.cons_ne_nil _ _)
    have linked : layout.Extends f own (Loc.read s.disk) (Function.update own g (some (.nextFrame f)))
        (Loc.read ((s.take g).disk.write f (setNextFrame (s.disk.read f) g))) := by
      refine .of_hosts (fun _ _ => grows₁.grow) (fun l holds => ?_) fun b free used => ?_
      · by_cases here : l.host = f
        · rcases hostKind_frame (live_cases holds.1 here role) with ⟨f', rfl⟩ | ⟨f', j, -, rfl⟩
          · obtain rfl : f' = f := here
            have named := sound.ne_zero_of_holds holds
            exact absurd last named
          · obtain rfl : f' = f := here
            show content _ j = content (s.disk.read f') j
            rw [Loc.host, Image.read_write, content_setNextFrame]
        · have used := owned_of_live holds.1
          have small := sound.lt used
          rw [Loc.read, Loc.read, Image.read_write_of_ne _ _ (by omega), grows₁.kept used id]
      · obtain rfl : b = g := by
          by_contra other
          exact used (by rw [Function.update_of_ne other, free])
        refine ⟨.nextFrame f, owned₁, live_nextFrame (grows₁.role role), ?_, .root⟩
        show nextFrame (((s.take b).disk.write f _).read f) = b
        rw [Image.read_write, nextFrame_setNextFrame (by omega)]
    refine linked.trans (.of_hosts (fun _ _ => filled.grows.grow) (fun l holds => ?_) fun b free used => ?_)
    · have used := owned_of_live holds.1
      have other : l.host ≠ g := by
        intro here
        apply sound₂.ne_zero_of_holds holds
        rw [Loc.read, here, empty]
        exact Bytes.word_zero _
      have small := sound₂.lt used
      rw [Loc.read, Loc.read, Image.read_write_of_ne _ _ (by omega), filled.grows.kept used id]
    · obtain ⟨-, j, -, hj, owned, entry⟩ := filled.fresh b free used
      refine ⟨.content g j, owned, live_content gRole hj, ?_, linked.fresh g gFree (by rw [owned₁]; simp)⟩
      show content ((s'.disk.write g frame).read g) j = b
      rw [gRead, entry]
  · show ((s'.disk.write g frame).read 1).clearCount + 128 = _
    rw [Image.read_write_of_ne _ _ (by omega)]
    dsimp only at count₃
    rw [map₂] at count₃
    unfold SFS_FRAME_COUNT at count₃
    omega

theorem Linked.cons {f g : Nat} {news : List Nat} {own₁ : Owners} {s₁ : State} (h : Linked f [g] own s own₁ s₁)
    (h' : Linked g news own₁ s₁ own' s') (role : Owners.role own f = some .frame) : Linked f (g :: news) own s own' s' := by
  have gFree := h.unowned g (List.mem_singleton_self g)
  have gRole := h.roles g (List.mem_singleton_self g)
  have fOwned := owned_of_role role
  have apart : f ≠ g := by rintro rfl; exact fOwned gFree
  have fRead : s'.disk.read f = s₁.disk.read f := h'.grows.kept (h.grows.owned fOwned) apart
  obtain ⟨-, fZero, link, -, last⟩ := h.chain (fun none => by cases none)
  have unowned : ∀ b, own₁ b = none → own b = none := fun b none => by_contra fun used => h.grows.owned used none
  refine ⟨h'.sound, h.grows.trans h'.grows fun b used same => ?_, fun _ => ⟨rfl, fZero, ?_⟩, fun b member => ?_,
    fun b member => ?_, fun j => by rw [fRead, h.entry j], fun b member j hj => ?_, fun b free used => ?_,
    fun i inode => h.inodes i (h'.inodes i inode), fun end' => ?_⟩
  · subst same
    exact absurd gFree used
  · have next : frameNext s'.disk f = g := by
      rw [frameNext, fRead]
      exact link.symm
    rw [next]
    exact h'.chain fun _ => last
  · rcases List.mem_cons.mp member with rfl | member
    · exact gFree
    · exact unowned b (h'.unowned b member)
  · rcases List.mem_cons.mp member with rfl | member
    · exact h'.grows.role gRole
    · exact h'.roles b member
  · rcases List.mem_cons.mp member with rfl | member
    · rw [h'.entry j]
      exact h.full b (List.mem_singleton_self b) j hj
    · obtain ⟨named, new⟩ := h'.full b member j hj
      exact ⟨named, unowned _ new⟩
  · by_cases later : own₁ b = none
    · exact h'.zero b later used
    · have kind : Owners.role own₁ b = some .data := by
        obtain ⟨l, owned⟩ := Option.ne_none_iff_exists'.mp later
        rw [role_of_own (h'.grows.grow owned)] at used
        rw [role_of_own owned, used]
      have other : b ≠ g := by
        rintro rfl
        rw [gRole] at kind
        cases kind
      rw [h'.grows.kept later other, h.zero b free kind]
  · have first := h.ext (.inr (end'.resolve_left (List.cons_ne_nil _ _)))
    have second := h'.ext (.inr last)
    exact first.trans (second.under (second.anchored (first.fresh g gFree (owned_of_role gRole))))

theorem growFrames_ok {missing f : Nat} (sound : Sound own s.disk) (loaded : nfreemapBlocks s.sb ≠ 0)
    (role : Owners.role own f = some .frame) (free : 128 * missing ≤ (s.disk.read 1).clearCount) :
    ∃ own' s' news, growFrames missing f s = .ok s' ∧ news.length = missing ∧ Linked f news own s own' s' ∧
      (s'.disk.read 1).clearCount + 128 * missing = (s.disk.read 1).clearCount := by
  induction missing generalizing own s f with
  | zero =>
    refine ⟨own, s, [], rfl, rfl, ⟨sound, Grows.refl _ _ _, fun last => ⟨rfl, ?_, last rfl⟩, by simp, by simp,
      fun _ => rfl, by simp, fun b free used => absurd free (owned_of_role used), fun _ inode => inode,
      fun _ => .refl ..⟩, Nat.add_zero _⟩
    exact sound.role_ne_zero role (by decide)
  | succ missing ih =>
    obtain ⟨g, own₁, s₁, run₁, linked₁, count₁⟩ := growFrame_ok sound loaded role (by omega)
    obtain ⟨own', s', news, run', size, linked', count'⟩ := ih linked₁.sound (by rw [linked₁.grows.sb]; exact loaded)
      (linked₁.roles g (List.mem_singleton_self g)) (by omega)
    refine ⟨own', s', g :: news, ?_, by rw [List.length_cons, size], linked₁.cons linked' role, by omega⟩
    rw [growFrames, run₁, ok_bind]
    exact run'

end StorageStack.Sfs
