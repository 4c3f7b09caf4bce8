import StorageStack.Sfs.Leaks
import StorageStack.Sfs.Scan

/-!
# The space a file system takes

In a state that is sound and tight the bits of the freemap are those of two reserved blocks, the directories,
and the inode, the frames and the content blocks of every file that is listed. Each block is counted once, so
the number of free blocks is known from what the walk finds.
-/

namespace StorageStack.Sfs
open Lib

/-- The inodes in the slots of the directories. -/
def listed (d : Image) (ids : List Nat) : List Nat := ids.flatMap fun id => (usedSlots (d.read id)).map (inodes (d.read id))

/-- The superblock, the freemap, the directories and all blocks of the files; `frames` are those of an inode. -/
def inUse (d : Image) (ids : List Nat) (frames : Nat → List Nat) : List Nat :=
  0 :: 1 :: (ids ++ (listed d ids).flatMap fun i => i :: blocksOf d (frames i))

variable {own : Owners} {s : State} {d : Image} {ids fs : List Nat} {frames : Nat → List Nat}

theorem mem_listed {i : Nat} :
    i ∈ listed d ids ↔ ∃ id ∈ ids, ∃ k < SFS_DB_NINODES, inodes (d.read id) k ≠ 0 ∧ inodes (d.read id) k = i := by
  simp only [listed, List.mem_flatMap, List.mem_map, mem_usedSlots, and_assoc]

theorem listed_role (sound : Sound own d) (roles : ∀ id ∈ ids, Owners.role own id = some .dir) {i : Nat}
    (member : i ∈ listed d ids) :
    Owners.role own i = some .inode := by
  obtain ⟨id, m, k, hk, used, rfl⟩ := mem_listed.mp member
  exact role_of_own (sound.slot_owned (roles id m) hk used)

theorem listed_nodup (sound : Sound own d) (roles : ∀ id ∈ ids, Owners.role own id = some .dir) (nodup : ids.Nodup) :
    (listed d ids).Nodup := by
  have owned : ∀ id ∈ ids, ∀ k ∈ usedSlots (d.read id), own (inodes (d.read id) k) = some (.slot id k) := by
    intro id member k used
    obtain ⟨hk, some⟩ := mem_usedSlots.mp used
    exact sound.slot_owned (roles id member) hk some
  rw [listed, List.nodup_flatMap]
  constructor
  · intro id member
    refine List.Nodup.map_on (fun j hj k hk same => ?_) (List.nodup_range.filter _)
    have both := owned id member j hj
    rw [same, owned id member k hk] at both
    simpa using both.symm
  · refine List.Pairwise.imp_of_mem (fun {a b} ha hb apart => ?_) nodup
    intro i left right
    obtain ⟨j, hj, rfl⟩ := List.mem_map.mp left
    obtain ⟨k, hk, same⟩ := List.mem_map.mp right
    have both := owned a ha j hj
    rw [← same, owned b hb k hk] at both
    have dirs : b = a ∧ k = j := by simpa using both
    exact apart dirs.1.symm

/-! ### The blocks of one file -/

theorem mem_contents {frame : Block} {b : Nat} :
    b ∈ contents frame 0 SFS_FRAME_COUNT ↔ ∃ j < SFS_FRAME_COUNT, content frame j = b ∧ b ≠ 0 := by
  simp only [contents, List.mem_filter, List.mem_map, List.mem_range'_1, Nat.zero_le, true_and, Nat.zero_add,
    decide_eq_true_eq]
  constructor
  · rintro ⟨⟨j, hj, rfl⟩, some⟩
    exact ⟨j, hj, rfl, some⟩
  · rintro ⟨j, hj, rfl, some⟩
    exact ⟨⟨j, hj, rfl⟩, some⟩

theorem contents_nodup (sound : Sound own d) {f : Nat} (role : Owners.role own f = some .frame) :
    (contents (d.read f) 0 SFS_FRAME_COUNT).Nodup := by
  rw [contents, List.filter_map]
  refine List.Nodup.map_on (fun i hi j hj same => ?_) ((List.nodup_range' _).filter _)
  obtain ⟨range, some⟩ := List.mem_filter.mp hi
  obtain ⟨range', some'⟩ := List.mem_filter.mp hj
  have bound := (List.mem_range'_1.mp range).2
  have bound' := (List.mem_range'_1.mp range').2
  have owned := sound.content_owned role (j := i) (by omega) (by simpa using some)
  rw [same, sound.content_owned role (j := j) (by omega) (by simpa using some')] at owned
  simpa using owned.symm

theorem blocksOf_nodup (sound : Sound own d) (roles : ∀ f ∈ fs, Owners.role own f = some .frame) (nodup : fs.Nodup) :
    (blocksOf d fs).Nodup := by
  have data : ∀ f ∈ fs, ∀ b ∈ contents (d.read f) 0 SFS_FRAME_COUNT, ∃ j, own b = some (.content f j) := by
    intro f member b inside
    obtain ⟨j, hj, rfl, some⟩ := mem_contents.mp inside
    exact ⟨j, sound.content_owned (roles f member) hj some⟩
  have noFrame : ∀ f ∈ fs, ∀ b ∈ contents (d.read f) 0 SFS_FRAME_COUNT, b ∉ fs := by
    intro f member b inside frame
    obtain ⟨j, owned⟩ := data f member b inside
    have role := roles b frame
    rw [role_of_own owned] at role
    cases role
  rw [blocksOf, List.nodup_flatMap]
  constructor
  · intro f member
    refine List.nodup_append.mpr ⟨contents_nodup sound (roles f member), List.nodup_singleton f, fun a ha b hb same => ?_⟩
    rw [List.mem_singleton] at hb
    exact noFrame f member a ha (by rw [same, hb]; exact member)
  · refine List.Pairwise.imp_of_mem (fun {f g} hf hg apart => ?_) nodup
    intro b left right
    rcases List.mem_append.mp left with inside | itself
    · rcases List.mem_append.mp right with inside' | itself'
      · obtain ⟨j, owned⟩ := data f hf b inside
        obtain ⟨j', owned'⟩ := data g hg b inside'
        rw [owned] at owned'
        have frames : f = g ∧ j = j' := by simpa using owned'
        exact apart frames.1
      · exact noFrame f hf b inside (by rw [List.mem_singleton.mp itself']; exact hg)
    · rcases List.mem_append.mp right with inside' | itself'
      · exact noFrame g hg b inside' (by rw [List.mem_singleton.mp itself]; exact hf)
      · exact apart ((List.mem_singleton.mp itself).symm.trans (List.mem_singleton.mp itself'))

/-- A frame or a content block that the frames of the inode name. -/
theorem inFile_of_mem {inode b : Nat} (chain : FrameChain s.disk inode fs) (sound : Sound own s.disk)
    (role : Owners.role own inode = some .inode) (member : b ∈ blocksOf s.disk fs) : InFile own inode b := by
  have members := chain.mem sound role
  rcases mem_blocksOf member with frame | ⟨f, m, j, hj, rfl, used⟩
  · exact (members b frame).2
  · exact .content (sound.content_owned (members f m).1 hj used) (members f m).2

theorem file_nodup {inode : Nat} (chain : FrameChain s.disk inode fs) (sound : Sound own s.disk)
    (role : Owners.role own inode = some .inode) : (inode :: blocksOf s.disk fs).Nodup := by
  have members := chain.mem sound role
  refine List.nodup_cons.mpr ⟨fun inside => ?_, blocksOf_nodup sound (fun f m => (members f m).1) (Chain.nodup chain)⟩
  rcases (inFile_of_mem chain sound role inside).role with frame | data
  · rw [role] at frame
    cases frame
  · rw [role] at data
    cases data

/-! ### All blocks -/

theorem inUse_nodup (sound : Sound own s.disk) (roles : ∀ id ∈ ids, Owners.role own id = some .dir) (nodup : ids.Nodup)
    (chains : ∀ i ∈ listed s.disk ids, FrameChain s.disk i (frames i)) : (inUse s.disk ids frames).Nodup := by
  have inode := fun i member => listed_role (i := i) sound roles member
  have kind : ∀ i ∈ listed s.disk ids, ∀ b ∈ i :: blocksOf s.disk (frames i), b = i ∨ InFile own i b := by
    intro i member b inside
    exact (List.mem_cons.mp inside).imp id (inFile_of_mem (chains i member) sound (inode i member))
  have files : ∀ b ∈ (listed s.disk ids).flatMap (fun i => i :: blocksOf s.disk (frames i)),
      own b ≠ none ∧ Owners.role own b ≠ some .dir ∧ b ≠ 0 := by
    intro b member
    obtain ⟨i, listed, inside⟩ := List.mem_flatMap.mp member
    rcases kind i listed b inside with rfl | file
    · have role := inode b listed
      exact ⟨owned_of_role role, by rw [role]; decide, sound.role_ne_zero role (by decide)⟩
    · rcases file.role with role | role
      · exact ⟨owned_of_role role, by rw [role]; decide, sound.role_ne_zero role (by decide)⟩
      · exact ⟨owned_of_role role, by rw [role]; decide, sound.role_ne_zero role (by decide)⟩
  have rest : ∀ b ∈ ids ++ (listed s.disk ids).flatMap (fun i => i :: blocksOf s.disk (frames i)), b ≠ 0 ∧ b ≠ 1 := by
    intro b member
    rcases List.mem_append.mp member with dir | file
    · exact ⟨sound.role_ne_zero (roles b dir) (by decide), sound.role_ne_one (roles b dir)⟩
    · exact ⟨(files b file).2.2, sound.ne_one (files b file).1⟩
  have apart : ((listed s.disk ids).flatMap fun i => i :: blocksOf s.disk (frames i)).Nodup := by
    rw [List.nodup_flatMap]
    refine ⟨fun i member => file_nodup (chains i member) sound (inode i member), ?_⟩
    refine List.Pairwise.imp_of_mem (fun {i j} hi hj apart => ?_) (listed_nodup sound roles nodup)
    intro b left right
    rcases kind i hi b left with rfl | file
    · rcases kind j hj b right with same | file'
      · exact apart same
      · rcases file'.role with role | role
        · rw [inode b hi] at role
          cases role
        · rw [inode b hi] at role
          cases role
    · rcases kind j hj b right with rfl | file'
      · rcases file.role with role | role
        · rw [inode b hj] at role
          cases role
        · rw [inode b hj] at role
          cases role
      · exact apart (file.unique file')
  have all : (ids ++ (listed s.disk ids).flatMap fun i => i :: blocksOf s.disk (frames i)).Nodup := by
    refine List.nodup_append.mpr ⟨nodup, apart, fun a ha b hb same => ?_⟩
    subst same
    exact (files a hb).2.1 (roles a ha)
  refine List.nodup_cons.mpr ⟨fun zero => ?_, List.nodup_cons.mpr ⟨fun one => (rest 1 one).2 rfl, all⟩⟩
  rcases List.mem_cons.mp zero with one | member
  · cases one
  · exact (rest 0 member).1 rfl

/-- What the freemap marks is found. -/
theorem inUse_of_bit (tight : Tight own s.disk) (sound : Sound own s.disk) (chain : DirChain s.disk ids)
    (roles : ∀ id ∈ ids, Owners.role own id = some .dir) (chains : ∀ i ∈ listed s.disk ids, FrameChain s.disk i (frames i))
    {b : Nat} (small : b < 4096) (set : (s.disk.read 1).bit b = true) : b ∈ inUse s.disk ids frames := by
  have found : ∀ i ∈ listed s.disk ids, ∀ b ∈ i :: blocksOf s.disk (frames i), b ∈ inUse s.disk ids frames := by
    intro i member b inside
    exact List.mem_cons_of_mem _ (List.mem_cons_of_mem _ (List.mem_append_right _ (List.mem_flatMap.mpr ⟨i, member, inside⟩)))
  by_cases one : b = 1
  · rw [one]
    exact List.mem_cons_of_mem _ (List.mem_cons_self ..)
  by_cases zero : b = 0
  · rw [zero]
    exact List.mem_cons_self ..
  -- By induction over the path to the superblock, with what the block is.
  suffices kinds : b = 0 ∨ b ∈ ids ∨ b ∈ listed s.disk ids ∨ ∃ i ∈ listed s.disk ids, b ∈ blocksOf s.disk (frames i) by
    rcases kinds with here | dir | inode | ⟨i, member, inside⟩
    · exact absurd here zero
    · exact List.mem_cons_of_mem _ (List.mem_cons_of_mem _ (List.mem_append_left _ dir))
    · exact found b inode b (List.mem_cons_self ..)
    · exact found i member b (List.mem_cons_of_mem _ inside)
  have anchored := tight b small (by omega) set
  clear set zero one small
  induction anchored with
  | root => exact .inl rfl
  | @step b l owned live named _ ih =>
    have used : b ≠ 0 := by
      rw [← named]
      exact sound.ne_zero_of_holds ⟨live, named ▸ owned⟩
    have role : ∀ i ∈ listed s.disk ids, Owners.role own i = some .inode := fun i member => listed_role sound roles member
    rcases ih with here | dir | inode | ⟨i, member, inside⟩
    · obtain rfl := hostKind_super (live_cases live here sound.role_zero)
      have first : firstDir (s.disk.read 0) = b := named
      refine .inr (.inl ?_)
      rw [← first]
      exact Chain.head_mem chain (by rw [first]; exact used)
    · rcases hostKind_dir (live_cases live rfl (roles _ dir)) with ⟨id, rfl⟩ | ⟨id, k, hk, rfl⟩
      · have next : dirNext s.disk id = b := named
        rw [← next] at used ⊢
        exact .inr (.inl (Chain.next_mem chain dir used))
      · have slot : inodes (s.disk.read id) k = b := named
        exact .inr (.inr (.inl (mem_listed.mpr ⟨id, dir, k, hk, by rw [slot]; exact used, slot⟩)))
    · obtain ⟨i, rfl⟩ := hostKind_inode (live_cases live rfl (role _ inode))
      have first : firstFrame (s.disk.read i) = b := named
      refine .inr (.inr (.inr ⟨i, inode, blocksOf_frame ?_⟩))
      exact first ▸ Chain.head_mem (chains i inode) (by rw [first]; exact used)
    · have members := FrameChain.mem (chains i member) sound (role i member)
      refine .inr (.inr (.inr ⟨i, member, ?_⟩))
      rcases mem_blocksOf inside with frame | ⟨f, m, j, hj, entry, some⟩
      · rcases hostKind_frame (live_cases live rfl (members _ frame).1) with ⟨f, rfl⟩ | ⟨f, j, hj, rfl⟩
        · have next : frameNext s.disk f = b := named
          rw [← next] at used ⊢
          exact blocksOf_frame (Chain.next_mem (chains i member) frame used)
        · have entry : content (s.disk.read f) j = b := named
          rw [← entry] at used ⊢
          exact blocksOf_content frame hj used
      · have owner := sound.content_owned (members f m).1 hj (by rw [entry]; exact some)
        rw [entry] at owner
        exact absurd (live_cases live rfl (role_of_own owner)) (hostKind_ne_data l)

theorem inUse_used (sound : Sound own s.disk) (roles : ∀ id ∈ ids, Owners.role own id = some .dir)
    (chains : ∀ i ∈ listed s.disk ids, FrameChain s.disk i (frames i)) {b : Nat} (member : b ∈ inUse s.disk ids frames) :
    b < 4096 ∧ (s.disk.read 1).bit b = true := by
  by_cases one : b = 1
  · rw [one]
    exact ⟨by decide, sound.mapBit⟩
  suffices used : own b ≠ none from ⟨sound.lt used, sound.bit used⟩
  rcases List.mem_cons.mp member with rfl | member
  · rw [sound.boot]
    exact Option.some_ne_none _
  rcases List.mem_append.mp ((List.mem_cons.mp member).resolve_left one) with dir | file
  · exact owned_of_role (roles b dir)
  obtain ⟨i, member, inside⟩ := List.mem_flatMap.mp file
  have role := listed_role sound roles member
  rcases List.mem_cons.mp inside with rfl | below
  · exact owned_of_role role
  · exact (inFile_of_mem (chains i member) sound role below).owned

/-- The marked blocks are those that are found. -/
theorem mem_inUse_iff (tight : Tight own s.disk) (sound : Sound own s.disk) (chain : DirChain s.disk ids)
    (roles : ∀ id ∈ ids, Owners.role own id = some .dir) (chains : ∀ i ∈ listed s.disk ids, FrameChain s.disk i (frames i))
    (b : Nat) : b ∈ inUse s.disk ids frames ↔ b < 4096 ∧ (s.disk.read 1).bit b = true :=
  ⟨inUse_used sound roles chains, fun ⟨small, set⟩ => inUse_of_bit tight sound chain roles chains small set⟩

/-- Every block that is found is counted once. -/
theorem space_exact (tight : Tight own s.disk) (sound : Sound own s.disk) (chain : DirChain s.disk ids)
    (roles : ∀ id ∈ ids, Owners.role own id = some .dir) (chains : ∀ i ∈ listed s.disk ids, FrameChain s.disk i (frames i)) :
    (s.disk.read 1).clearCount + (inUse s.disk ids frames).length = 4096 := by
  have found := mem_inUse_iff tight sound chain roles chains
  exact Bytes.clearCount_add_length (inUse_nodup sound roles (Chain.nodup chain) chains)
    (fun b small => ⟨fun set => (found b).mpr ⟨small, set⟩, fun member => ((found b).mp member).2⟩)
    fun b member => ((found b).mp member).1

/-- After any run of fine calls that free what they unlink, the clear bits of the freemap are exactly the blocks
that the walk over directories and files does not find. -/
theorem thrifty_space (s : State) (calls : List Call)
    (thrifty : Meets Call.step (fun c w => c.Fine w ∧ c ≠ .mkfs ∧ c.Thrifty w) calls (World.start s)) :
    ∃ w ids frames, runAll Call.step calls (World.start s) = .ok w ∧ DirChain w.state.disk ids ∧
      (∀ i ∈ listed w.state.disk ids, FrameChain w.state.disk i (frames i)) ∧ (inUse w.state.disk ids frames).Nodup ∧
      (∀ b, b ∈ inUse w.state.disk ids frames ↔ b < 4096 ∧ (w.state.disk.read 1).bit b = true) ∧
      (w.state.disk.read 1).clearCount + (inUse w.state.disk ids frames).length = 4096 := by
  obtain ⟨w, run, own, serves, tight⟩ := runAll_keeps (fun w => ∃ own, Serves own w ∧ Tight own w.state.disk)
    (fun c w ⟨own, serves, tight⟩ ⟨fine, format, frees⟩ => by
      obtain ⟨w', own', step, serves', saved⟩ := fine_serves serves fine format
      exact ⟨w', step, own', serves', saved frees tight⟩) ⟨bare, serves_start s, tight_start s⟩ thrifty
  have sound := serves.healthy.sound
  obtain ⟨ids, chain, -, roles⟩ := sound.dirChain
  have files : ∀ i, ∃ fs, i ∈ listed w.state.disk ids → FrameChain w.state.disk i fs := by
    intro i
    by_cases member : i ∈ listed w.state.disk ids
    · obtain ⟨fs, chain, -⟩ := sound.frameChain (listed_role sound roles member)
      exact ⟨fs, fun _ => chain⟩
    · exact ⟨[], fun yes => absurd yes member⟩
  obtain ⟨frames, chains⟩ := Classical.skolem.mp files
  exact ⟨w, ids, frames, run, chain, chains, inUse_nodup sound roles (Chain.nodup chain) chains,
    mem_inUse_iff tight sound chain roles chains, space_exact tight sound chain roles chains⟩

theorem mkdir_open_space : ∃ w ids frames,
    runAll Call.step [.mkdir .zero slash, .openFile .zero slash slash] (World.start .initial) = .ok w ∧
      DirChain w.state.disk ids ∧
      (∀ i ∈ listed w.state.disk ids, FrameChain w.state.disk i (frames i)) ∧ (inUse w.state.disk ids frames).Nodup ∧
      (∀ b, b ∈ inUse w.state.disk ids frames ↔ b < 4096 ∧ (w.state.disk.read 1).bit b = true) ∧
      (w.state.disk.read 1).clearCount + (inUse w.state.disk ids frames).length = 4096 := by
  refine thrifty_space .initial [.mkdir .zero slash, .openFile .zero slash slash]
    ⟨⟨mkdirFine_first, by simp, trivial⟩, fun w made => ⟨⟨?_, by simp, ?_⟩, fun _ _ => trivial⟩⟩
  · obtain ⟨r, run⟩ := Call.of_step made
    exact openFine_first run (by decide)
  · intro dirBid found _
    exact ⟨0, by decide, mkdir_first_slot made found⟩

end StorageStack.Sfs
