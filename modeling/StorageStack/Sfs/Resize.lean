import StorageStack.Sfs.Translation

/-!
# Growing a file

`sfs_resize_file` counts the missing frames from the old size and links them behind the first frame. The
frames of the file are kept when the first one is the last one, or when none is missing.
-/

namespace StorageStack.Sfs
open Lib

variable {own own' : Owners} {s s' : State} {fs : List Nat} {fd : Fin 32} {inode newSize : Nat}

/-- The number of frames a file of `size` bytes has. -/
def framesOf (size : Nat) : Nat := max 1 ((size + 65023) / 65024)

theorem framesOf_le_iff {size k : Nat} : framesOf size ≤ k ↔ 1 ≤ k ∧ size ≤ 65024 * k := by
  unfold framesOf
  omega

theorem one_le_framesOf (size : Nat) : 1 ≤ framesOf size := (framesOf_le_iff.mp (Nat.le_refl _)).1

theorem le_framesOf (size : Nat) : size ≤ 65024 * framesOf size := (framesOf_le_iff.mp (Nat.le_refl _)).2

theorem framesOf_le_framesOf {a b : Nat} (inside : b ≤ 65024 * framesOf a) : framesOf b ≤ framesOf a :=
  framesOf_le_iff.mpr ⟨one_le_framesOf a, inside⟩

theorem framesOf_lt_iff {a b : Nat} : framesOf a < framesOf b ↔ 65024 * framesOf a < b := by
  have some := one_le_framesOf a
  rw [← Nat.not_le, framesOf_le_iff, and_iff_right some, Nat.not_le]

theorem clearCount_le (b : Block) : b.clearCount ≤ 4096 :=
  (Finset.card_filter_le _ _).trans (by rw [Finset.card_range])

theorem oldFrames_eq {size : Nat} (small : size < 2147418624) : oldFrames size = framesOf size := by
  have first : toInt32 size = size := toInt32_of_range (by omega) (by omega)
  have sum : toInt32 ((size : Int) + 65023) = size + 65023 := toInt32_of_range (by omega) (by omega)
  unfold oldFrames framesOf
  dsimp only
  rw [first, sum, Int.tdiv_eq_ediv_of_nonneg (by omega)]
  split <;> omega

theorem newFrames_eq (small : newSize + 65023 < 4294967296) (pos : 0 < newSize) : newFrames newSize = framesOf newSize := by
  have sum : toU32 ((newSize : Int) + 65023) = newSize + 65023 := by unfold toU32; omega
  unfold newFrames framesOf
  rw [sum]
  omega

/-- After growing to `newSize` bytes: the frames `fs` with their entries, followed by the missing ones. -/
structure Grown (inode : Nat) (fs : List Nat) (newSize : Nat) (s s' : State) : Prop where
  chain : ∃ news, FrameChain s'.disk inode (fs ++ news) ∧ (fs ++ news).length = framesOf newSize ∧ (fs ++ news).Nodup
  entries : ∀ f ∈ fs, ∀ j < SFS_FRAME_COUNT, content (s'.disk.read f) j = content (s.disk.read f) j
  size : size (s'.disk.read inode) = newSize
  first : firstFrame (s'.disk.read inode) = firstFrame (s.disk.read inode)
  name : fileName (s'.disk.read inode) = fileName (s.disk.read inode)

/-- The file before the call, with the descriptor's copy of the size as `sfs_write` leaves it. -/
structure Growing (own : Owners) (s : State) (fd : Fin 32) (inode : Nat) (fs : List Nat) (newSize : Nat) : Prop where
  sound : Sound own s.disk
  loaded : nfreemapBlocks s.sb ≠ 0
  role : Owners.role own inode = some .inode
  framed : firstFrame (s.disk.read inode) ≠ 0
  entry : (s.fdtable fd).inodeBid = inode
  copy : size (s.fdtable fd).inode = size (s.disk.read inode)
  chain : FrameChain s.disk inode fs
  count : fs.length = framesOf (size (s.disk.read inode))
  larger : size (s.disk.read inode) < newSize
  range : newSize < 4294967296
  free : 128 * (framesOf newSize - fs.length) ≤ (s.disk.read 1).clearCount

theorem Growing.missing (h : Growing own s fd inode fs newSize) :
    (newFrames newSize - oldFrames (size (s.fdtable fd).inode)).toNat = framesOf newSize - fs.length := by
  have few := h.chain.length_le h.sound h.role
  have count := h.count
  have larger := h.larger
  have room := h.free.trans (clearCount_le _)
  have old : size (s.disk.read inode) < 2147418624 := by unfold framesOf at count; omega
  have new : newSize + 65023 < 4294967296 := by unfold framesOf at count room; omega
  rw [h.copy, oldFrames_eq old, newFrames_eq new (by omega), ← count]
  omega

/-- What the call returns: the first frame with the missing frames behind it. -/
theorem Growing.resize_ok (h : Growing own s fd inode fs newSize) :
    ∃ own' s₁ news,
      sfsResizeFile s fd newSize = .ok { s₁ with disk := s₁.disk.write inode (setSize (s.disk.read inode) newSize) } ∧
      Linked (firstFrame (s.disk.read inode)) news own s own' s₁ ∧ news.length = framesOf newSize - fs.length ∧
      (news = [] → s₁ = s) ∧ ∀ b, Owners.role own' b = some .frame →
        (s₁.disk.write inode (setSize (s.disk.read inode) newSize)).read b = s₁.disk.read b := by
  have first : Owners.role own (firstFrame (s.disk.read inode)) = some .frame :=
    role_of_own (h.sound.firstFrame_owned h.role h.framed)
  obtain ⟨own', s₁, news, run, length, linked, -⟩ := growFrames_ok h.sound h.loaded first h.free
  refine ⟨own', s₁, news, ?_, linked, length, fun none => ?_, fun b used => ?_⟩
  · rw [sfsResizeFile, h.missing, h.entry, run, ok_bind]
  · rw [← length, none] at run
    exact (Except.ok.inj run).symm
  · have small := linked.sound.role_lt used
    have small' := h.sound.role_lt h.role
    have other : b ≠ inode := by
      rintro rfl
      rw [linked.grows.role h.role] at used
      cases used
    exact Image.read_write_of_ne _ _ (by omega)

/-- The chain of the grown file starts with the old first frame and goes on with new frames. -/
theorem Growing.frames (h : Growing own s fd inode fs newSize) {s' : State} (run : sfsResizeFile s fd newSize = .ok s')
    (missing : framesOf newSize ≠ fs.length) :
    ∃ fs', FrameChain s'.disk inode fs' ∧ fs'.length = framesOf newSize - fs.length + 1 := by
  have larger := h.larger
  have count := h.count
  have more : fs.length < framesOf newSize := by unfold framesOf at *; omega
  obtain ⟨own', s₁, news, run', linked, length, -, keep⟩ := h.resize_ok
  obtain rfl := Except.ok.inj (run.symm.trans run')
  have more' : news ≠ [] := by
    intro none
    rw [none, List.length_nil] at length
    omega
  have role : Owners.role own' (firstFrame (s.disk.read inode)) = some .frame :=
    linked.grows.role (role_of_own (h.sound.firstFrame_owned h.role h.framed))
  refine ⟨firstFrame (s.disk.read inode) :: news, ?_, by rw [List.length_cons, length]⟩
  unfold FrameChain
  dsimp only
  rw [Image.read_write, firstFrame_setSize]
  refine Chain.congr (linked.chain fun none => absurd none more') fun f member => ?_
  rw [frameNext, frameNext, keep f]
  rcases List.mem_cons.mp member with first | new
  · rw [first]
    exact role
  · exact linked.roles f new

/-- Frames are lost when the file had several and needs more. -/
theorem Growing.grown_only (h : Growing own s fd inode fs newSize) {s' : State} (run : sfsResizeFile s fd newSize = .ok s')
    (grown : Grown inode fs newSize s s') : fs.length = 1 ∨ framesOf newSize = fs.length := by
  by_cases same : framesOf newSize = fs.length
  · exact .inr same
  obtain ⟨fs', chain, length⟩ := h.frames run same
  obtain ⟨news, chain', length', -⟩ := grown.chain
  obtain rfl := Chain.unique chain chain'
  have count := h.count
  rw [List.length_append] at length length'
  left
  unfold framesOf at *
  omega

theorem Growing.grown (h : Growing own s fd inode fs newSize) (keeps : fs.length = 1 ∨ framesOf newSize = fs.length) :
    ∃ s', sfsResizeFile s fd newSize = .ok s' ∧ Grown inode fs newSize s s' := by
  obtain ⟨rest, shape⟩ := h.chain.first h.framed
  obtain ⟨own', s₁, news, run, linked, length, same, keep⟩ := h.resize_ok
  have members := h.chain.mem h.sound h.role
  have size : Sfs.size (setSize (s.disk.read inode) newSize) = newSize := size_setSize h.range
  have last : rest = [] ∨ news = [] := by
    rcases keeps with one | same
    · left
      rw [shape, List.length_cons] at one
      exact List.length_eq_zero_iff.mp (by omega)
    · right
      exact List.length_eq_zero_iff.mp (by omega)
  have unchanged : ∀ f ∈ fs, f ≠ firstFrame (s.disk.read inode) → s₁.disk.read f = s.disk.read f :=
    fun f member other => linked.grows.kept (owned_of_role (members f member).1) other
  have chain : FrameChain (s₁.disk.write inode (setSize (s.disk.read inode) newSize)) inode (fs ++ news) := by
    unfold FrameChain
    rw [Image.read_write, firstFrame_setSize]
    rcases last with rfl | rfl
    · have ends : nextFrame (s.disk.read (firstFrame (s.disk.read inode))) = 0 := by
        have whole := h.chain
        rw [shape] at whole
        exact whole.2.2
      rw [shape]
      refine Chain.congr (linked.chain fun _ => ends) fun f member => ?_
      rw [frameNext, frameNext, keep f]
      rcases List.mem_cons.mp member with first | new
      · rw [first]
        exact linked.grows.role (members _ (by rw [shape]; exact List.mem_cons_self ..)).1
      · exact linked.roles f new
    · rw [List.append_nil]
      refine Chain.congr h.chain fun f member => ?_
      rw [frameNext, frameNext, keep f (linked.grows.role (members f member).1), same rfl]
  refine ⟨_, run, ⟨news, chain, ?_, Chain.nodup chain⟩, fun f member j hj => ?_, ?_, ?_, ?_⟩
  · have count := h.count
    have larger := h.larger
    rw [List.length_append, length]
    unfold framesOf at *
    omega
  · dsimp only
    rw [keep f (linked.grows.role (members f member).1)]
    by_cases first : f = firstFrame (s.disk.read inode)
    · rw [first, linked.entry j]
    · rw [unchanged f member first]
  · dsimp only
    rw [Image.read_write, size]
  · dsimp only
    rw [Image.read_write, firstFrame_setSize]
  · dsimp only
    rw [Image.read_write, fileName_setSize]

/-- The file keeps its frames exactly when it has only one, or needs no more than it has. -/
theorem resize_keeps_frames_iff (wf : WellFormed s.disk) (loaded : nfreemapBlocks s.sb = 1) (file : IsFile s.disk inode)
    (entry : (s.fdtable fd).inodeBid = inode) (copy : size (s.fdtable fd).inode = size (s.disk.read inode))
    (chain : FrameChain s.disk inode fs) (count : fs.length = framesOf (size (s.disk.read inode)))
    (larger : size (s.disk.read inode) < newSize) (range : newSize < 4294967296)
    (free : 128 * (framesOf newSize - fs.length) ≤ (s.disk.read 1).clearCount) :
    (∃ s', sfsResizeFile s fd newSize = .ok s' ∧ Grown inode fs newSize s s') ↔
      fs.length = 1 ∨ framesOf newSize = fs.length := by
  have sound := wf.sound
  have framed : firstFrame (s.disk.read inode) ≠ 0 := file.framed wf
  have growing : Growing (holders s.disk) s fd inode fs newSize :=
    ⟨sound, by rw [loaded]; decide, file.role sound, framed, entry, copy, chain, count, larger, range, free⟩
  constructor
  · intro ⟨s', run, grown⟩
    exact growing.grown_only run grown
  · intro keeps
    exact growing.grown keeps

/-- A second frame for the empty file. -/
theorem one_frame_grows : ∃ s', sfsResizeFile oneFileLoaded 0 65025 = .ok s' ∧ Grown 3 [4] 65025 oneFileLoaded s' :=
  (@resize_keeps_frames_iff oneFileLoaded [4] 0 3 65025 oneFile_wellFormed oneFile_healthy.coherent.nfreemapBlocks
    oneFile_isFile rfl rfl oneFile_ok.chain (by decide +kernel) (by decide +kernel) (by decide)
    (Nat.le_trans (by decide) oneFile_free)).mpr (.inl rfl)

/-- A third frame makes the file lose its second one. -/
theorem second_frame_lost : ¬ ∀ (s : State) (fd : Fin 32) (inode : Nat) (fs : List Nat) (newSize : Nat), WellFormed s.disk →
    nfreemapBlocks s.sb = 1 → IsFile s.disk inode → (s.fdtable fd).inodeBid = inode →
    size (s.fdtable fd).inode = size (s.disk.read inode) → FrameChain s.disk inode fs →
    fs.length = framesOf (size (s.disk.read inode)) → size (s.disk.read inode) < newSize → newSize < 4294967296 →
    128 * (framesOf newSize - fs.length) ≤ (s.disk.read 1).clearCount →
    ∃ s', sfsResizeFile s fd newSize = .ok s' ∧ Grown inode fs newSize s s' := by
  intro claim
  obtain ⟨own, s, f, -, two⟩ := grown_file
  have count : [4, f].length = framesOf (size (s.disk.read 3)) := by rw [two.size]; rfl
  have larger : size (s.disk.read 3) < 131072 := by rw [two.size]; decide
  have free := two.free
  have room := oneFile_free
  have framed := (two.healthy.usable two.role).framed
  have entry : ((s.setFd 0 { s.fdtable 0 with inode := s.disk.read 3 }).fdtable 0).inodeBid = 3 := by
    rw [setFd_self]
    exact two.entry
  have copy : size ((s.setFd 0 { s.fdtable 0 with inode := s.disk.read 3 }).fdtable 0).inode = size (s.disk.read 3) := by
    rw [setFd_self]
  have blocks : 128 * (framesOf 131072 - [4, f].length) ≤ (s.disk.read 1).clearCount := by
    show 128 ≤ _
    omega
  obtain ⟨s', run, grown⟩ := claim (s.setFd 0 { s.fdtable 0 with inode := s.disk.read 3 }) 0 3 [4, f] 131072
    two.healthy.wellFormed two.healthy.coherent.nfreemapBlocks two.file entry copy two.chain count larger (by decide) blocks
  have growing : Growing own (s.setFd 0 { s.fdtable 0 with inode := s.disk.read 3 }) 0 3 [4, f] 131072 :=
    ⟨two.healthy.sound, two.healthy.coherent.loaded, two.role, framed, entry, copy, two.chain, count, larger, by decide, blocks⟩
  rcases growing.grown_only run grown with one | same
  · cases one
  · exact absurd same (by show ¬ 3 = 2; decide)

end StorageStack.Sfs
