import StorageStack.Sfs.Calls

/-!
# File isolation

Well-formedness of an image is stated by what a walk from the superblock finds. The walk determines an
ownership map (`WellFormed.sound`), a write keeps the map sound, and a sound map makes the image well
formed again; so a write to one file leaves every other file, the directories and the superblock alone.
-/

namespace StorageStack.Sfs
open Lib

/-- The locations a walk from the superblock finds: `first_dir`, the links and slots of the directories,
the first frames of the inodes, the links and entries of the frames. -/
def Reached (d : Image) : Loc → Prop := layout.Reach (Loc.read d) .firstDir

/-- The locations a walk from an inode finds. -/
def ReachedFrom (d : Image) (inode : Nat) : Loc → Prop := layout.Reach (Loc.read d) (.firstFrame inode)

structure WellFormed (d : Image) : Prop where
  distinct : ∀ l l', Reached d l → Reached d l' → l.read d ≠ 0 → l.read d = l'.read d → l = l'
  range : ∀ l, Reached d l → l.read d ≠ 0 → 2 ≤ l.read d ∧ l.read d < 4096
  marked : ∀ l, Reached d l → l.read d ≠ 0 → (d.read 1).bit (l.read d) = true
  dirs : ∃ ids, Chain (fun b => nextDir (d.read b)) (firstDir (d.read 0)) ids
  frames : ∀ l, Reached d l → l.kind = .inode → l.read d ≠ 0 → ∃ fs, FrameChain d (l.read d) fs
  framed : ∀ l, Reached d l → l.kind = .inode → l.read d ≠ 0 → firstFrame (d.read (l.read d)) ≠ 0
  reserved : (d.read 1).bit 0 = true ∧ (d.read 1).bit 1 = true

/-- `inode` is the inode block of a file of the image. -/
def IsFile (d : Image) (inode : Nat) : Prop := ∃ l, Reached d l ∧ l.kind = .inode ∧ l.read d = inode ∧ inode ≠ 0

def IsDir (d : Image) (dir : Nat) : Prop := ∃ l, Reached d l ∧ l.kind = .dir ∧ l.read d = dir ∧ dir ≠ 0

/-- The inode block, the frames and the content blocks of a file. -/
def BlockOf (d : Image) (inode b : Nat) : Prop :=
  b = inode ∨ ∃ l, ReachedFrom d inode l ∧ l.read d = b ∧ b ≠ 0

variable {d : Image} {own own' : Owners} {s s' : State}

/-! ### Walks and ownership -/

noncomputable def holders (d : Image) : Owners := Scheme.holder layout (Loc.read d) .firstDir bare

theorem WellFormed.sound (wf : WellFormed d) : Sound (holders d) d := by
  have cases : ∀ {b l}, holders d b = some l → (Reached d l ∧ l.read d ≠ 0 ∧ l.read d = b) ∨ (b = 0 ∧ l = .boot) := by
    intro b l owned
    rcases Scheme.holder_cases owned with found | base
    · exact Or.inl found
    · exact Or.inr (bare_eq_some base)
  refine ⟨?_, ?_, wf.reserved.2, fun owned => ?_, Scheme.holder_sound wf.distinct fun b l l' base here fits => ?_⟩
  · have none : ¬ ∃ l, layout.Reach (Loc.read d) .firstDir l ∧ Loc.read d l ≠ 0 ∧ Loc.read d l = 0 := by
      rintro ⟨l, _, some, zero⟩
      exact some zero
    exact dif_neg none
  · by_contra used
    obtain ⟨l, owned⟩ := Option.ne_none_iff_exists'.mp used
    rcases cases owned with ⟨reach, some, one⟩ | ⟨zero, _⟩
    · have := (wf.range l reach some).1
      omega
    · cases zero
  · rcases cases owned with ⟨reach, some, rfl⟩ | ⟨rfl, _⟩
    · exact ⟨(wf.range _ reach some).2, wf.marked _ reach some⟩
    · exact ⟨by decide, wf.reserved.1⟩
  · obtain ⟨-, rfl⟩ := bare_eq_some base
    exact hostKind_super fits

theorem Reached.owned {l : Loc} (h : Reached d l) (sound : Sound own d) (named : l.read d ≠ 0) :
    own (l.read d) = some l :=
  sound.refs l (Scheme.Reach.live sound.refs (live_firstDir sound) h) named

theorem Sound.wellFormed (sound : Sound own d)
    (framed : ∀ i, Owners.role own i = some .inode → firstFrame (d.read i) ≠ 0) : WellFormed d := by
  have live : ∀ l, Reached d l → layout.Live own l := fun l h => Scheme.Reach.live sound.refs (live_firstDir sound) h
  obtain ⟨ids, chain, _⟩ := sound.dirChain
  have boot : own 0 ≠ none := by simp [sound.boot]
  refine ⟨fun l l' h h' named same => sound.refs.injective (live l h) (live l' h') named same, fun l h named => ?_,
    fun l h named => ?_, ⟨ids, chain⟩, fun l h kind named => ?_, fun l h kind named => ?_, sound.bit boot, sound.mapBit⟩
  · have owned := h.owned sound named
    have used : own (l.read d) ≠ none := by simp [owned]
    have := sound.ne_one used
    exact ⟨by omega, sound.lt used⟩
  · exact sound.bit (by simp [h.owned sound named])
  · obtain ⟨fs, chain, _⟩ := sound.frameChain (kind ▸ role_of_own (h.owned sound named))
    exact ⟨fs, chain⟩
  · exact framed _ (kind ▸ role_of_own (h.owned sound named))

theorem Healthy.wellFormed (h : Healthy own s) : WellFormed s.disk :=
  h.sound.wellFormed fun _ role => (h.usable role).framed

theorem IsFile.role {inode : Nat} (h : IsFile d inode) (sound : Sound own d) : Owners.role own inode = some .inode := by
  obtain ⟨l, reach, kind, rfl, named⟩ := h
  exact kind ▸ role_of_own (Reached.owned reach sound named)

theorem IsFile.framed {inode : Nat} (h : IsFile d inode) (wf : WellFormed d) : firstFrame (d.read inode) ≠ 0 := by
  obtain ⟨l, reach, kind, rfl, named⟩ := h
  exact wf.framed l reach kind named

theorem IsDir.role {dir : Nat} (h : IsDir d dir) (sound : Sound own d) : Owners.role own dir = some .dir := by
  obtain ⟨l, reach, kind, rfl, named⟩ := h
  exact kind ▸ role_of_own (Reached.owned reach sound named)

/-- Every inode the walk's map knows is a file of the image. -/
theorem holders_inode {i : Nat} (h : Owners.role (holders d) i = some .inode) : IsFile d i := by
  obtain ⟨l, owned, kind⟩ := Scheme.role_eq_some h
  rcases Scheme.holder_cases owned with ⟨reach, named, here⟩ | base
  · exact ⟨l, reach, kind, here, here ▸ named⟩
  · obtain ⟨-, rfl⟩ := bare_eq_some base
    cases kind

theorem ReachedFrom.inFile {inode : Nat} {l : Loc} (h : ReachedFrom d inode l) (sound : Sound own d)
    (role : Owners.role own inode = some .inode) (named : l.read d ≠ 0) : InFile own inode (l.read d) := by
  have live : ∀ l, ReachedFrom d inode l → layout.Live own l :=
    fun l h => Scheme.Reach.live sound.refs (live_firstFrame role) h
  induction h with
  | root => exact .firstFrame (sound.refs (.firstFrame inode) (live_firstFrame role) named)
  | @step l l' before more inside fits ih =>
    have owned := sound.refs l' (live l' (.step before more inside fits)) named
    have frame := ih more
    rw [show Loc.read d l = l'.host from inside.symm] at frame
    -- The block that holds `l'` is a block of the file, so `l'` is a link or an entry of a frame.
    have kind := (live l' (.step before more inside fits)).2
    rcases frame.role with h | h
    · rcases hostKind_frame (kind.symm.trans h) with ⟨f, rfl⟩ | ⟨f, j, _, rfl⟩
      · exact .nextFrame owned frame
      · exact .content owned frame
    · exact absurd (kind.symm.trans h) (hostKind_ne_data l')

theorem FrameChain.reached {inode : Nat} {fs : List Nat} (chain : FrameChain d inode fs) :
    ∀ f ∈ fs, ∃ l, ReachedFrom d inode l ∧ l.kind = .frame ∧ l.read d = f ∧ l.read d ≠ 0 := by
  refine Chain.forall_mem chain (P := fun f => ∃ l, ReachedFrom d inode l ∧ l.kind = .frame ∧ l.read d = f ∧ l.read d ≠ 0)
    (fun named => ⟨.firstFrame inode, .root, rfl, rfl, named⟩) (fun f h named => ?_)
  obtain ⟨l, reach, kind, rfl, some⟩ := h
  exact ⟨.nextFrame (l.read d), .step reach some rfl (by rw [show layout.kind l = l.kind from rfl, kind]; rfl), rfl, rfl, named⟩

theorem isFile_of_slot {dir inode k : Nat} (first : firstDir (d.read 0) = dir) (slot : inodes (d.read dir) k = inode)
    (hk : k < SFS_DB_NINODES) (dirNamed : dir ≠ 0) (named : inode ≠ 0) : IsFile d inode := by
  subst first slot
  exact ⟨.slot _ k, .step .root dirNamed rfl (if_pos hk), rfl, rfl, named⟩

/-! ### A write in the first frame -/

theorem FileGrows.kept {inode b : Nat} {k : Kind} (h : FileGrows inode own s own' s') (role : Owners.role own b = some k)
    (other : b ≠ inode) (outside : ¬ InFile own inode b) : s'.disk.read b = s.disk.read b :=
  h.grows.kept (owned_of_role role) fun touched => touched.elim other outside

/-- A write through a descriptor of `a` that stays in the first frame leaves every other file, all
directories and the superblock, marks exactly the blocks it attaches, and keeps the image well formed. -/
theorem sfsWrite_isolated {cap : Nat} {fd : Int} {slot : Fin 32} {a : Nat} {buf : List UInt8} (wf : WellFormed s.disk)
    (loaded : nfreemapBlocks s.sb = 1) (index : fdIndex fd = .ok slot) (file : (s.fdtable slot).inodeBid = a)
    (isFile : IsFile s.disk a) (position : (s.fdtable slot).cur + buf.length < 127 * 512)
    (ids : numBlocks (s.fdtable slot).cur buf.length ≤ cap)
    (free : holes (s.disk.read (firstFrame (s.disk.read a))) ((s.fdtable slot).cur / 512)
      (numBlocks (s.fdtable slot).cur buf.length) ≤ (s.disk.read 1).clearCount) :
    ∃ s', sfsWriteWith cap s fd buf buf.length = .ok ((buf.length : Nat), s') ∧
      (∀ b', IsFile s.disk b' → b' ≠ a → ∀ b, BlockOf s.disk b' b → s'.disk.read b = s.disk.read b) ∧
      (∀ b, IsDir s.disk b → s'.disk.read b = s.disk.read b) ∧ s'.disk.read 0 = s.disk.read 0 ∧
      (∀ b < 4096, (s.disk.read 1).bit b = true → (s'.disk.read 1).bit b = true) ∧
      (∀ b < 4096, (s.disk.read 1).bit b = false → (s'.disk.read 1).bit b = true → BlockOf s'.disk a b) ∧
      WellFormed s'.disk := by
  have sound := wf.sound
  have role := isFile.role sound
  obtain ⟨l, reach, kind, here, -⟩ := isFile
  have named : l.read s.disk ≠ 0 := here ▸ sound.role_ne_zero role (by decide)
  obtain ⟨fs, chain⟩ := wf.frames l reach kind named
  have framed := wf.framed l reach kind named
  rw [here, ← file] at chain framed
  rw [← file] at role free
  obtain ⟨own, s', run, grows, -, -, -, attached⟩ := sfsWriteWith_ok buf index rfl sound (by rw [loaded]; decide) role
    framed (writeRoom_firstFrame chain framed position ids free) (Int.le_refl _)
  obtain ⟨chain', entries⟩ := attached (missingFrames_small (by omega))
  rw [file] at role chain chain' grows
  have members := chain.mem sound role
  refine ⟨s', run, fun b' isFile' other b isBlock => ?_, fun b isDir => ?_, ?_, fun b hb set => ?_, fun b hb clear set => ?_, ?_⟩
  · have role' := isFile'.role sound
    rcases isBlock with rfl | ⟨l', reach', rfl, some⟩
    · apply grows.kept role' other
      intro inside
      rcases inside.role with h | h <;> rw [h] at role' <;> cases role'
    · have inside := reach'.inFile sound role' some
      rcases inside.role with h | h
      · refine grows.kept h (fun same => ?_) fun inside' => other (inside.unique inside')
        rw [same, role] at h
        cases h
      · refine grows.kept h (fun same => ?_) fun inside' => other (inside.unique inside')
        rw [same, role] at h
        cases h
  · have role' := isDir.role sound
    refine grows.kept role' (fun same => ?_) fun inside => ?_
    · rw [same, role] at role'
      cases role'
    · rcases inside.role with h | h <;> rw [h] at role' <;> cases role'
  · refine grows.kept sound.role_zero (fun same => ?_) fun inside => ?_
    · rw [← same, sound.role_zero] at role
      cases role
    · rcases inside.role with h | h <;> rw [sound.role_zero] at h <;> cases h
  · exact (grows.grows.bits b hb).mpr (Or.inl set)
  · rcases (grows.grows.bits b hb).mp set with before | ⟨unowned, used⟩
    · simp [clear] at before
    · obtain ⟨f, member, j, hj, rfl⟩ := entries b unowned used
      obtain ⟨lf, reachF, kindF, rfl, someF⟩ := chain'.reached f member
      have entry : ReachedFrom s'.disk a (.content (lf.read s'.disk) j) := by
        refine .step reachF someF rfl ?_
        show (if j < SFS_FRAME_COUNT then some Kind.frame else none) = some lf.kind
        rw [if_pos hj, kindF]
      exact Or.inr ⟨_, entry, rfl, sound.clear_ne_zero clear⟩
  · apply grows.sound.wellFormed
    intro i roleI
    by_cases fresh : holders s.disk i = none
    · -- Only content blocks are new.
      obtain ⟨f, member, j, hj, rfl⟩ := entries i fresh (owned_of_role roleI)
      have roleF := grows.grows.role (members f member).1
      have owned := grows.sound.content_owned roleF hj (grows.sound.role_ne_zero roleI (by decide))
      rw [role_of_own owned] at roleI
      cases roleI
    · obtain ⟨l', owned⟩ := Option.ne_none_iff_exists'.mp fresh
      have before : Owners.role (holders s.disk) i = some .inode := by
        rw [role_of_own owned, ← roleI, role_of_own (grows.grows.grow owned)]
      obtain ⟨l', reach', kind', rfl, some⟩ := holders_inode before
      have framed' := wf.framed l' reach' kind' some
      by_cases same : l'.read s.disk = a
      · rw [same] at framed' ⊢
        rw [grows.first]
        exact framed'
      · rw [grows.kept before same fun inside => by rcases inside.role with h | h <;> rw [h] at before <;> cases before]
        exact framed'

/-- The byte of the first file is written again. -/
theorem twoFiles_isolated : ∃ w s', runAll Call.step twoFiles (World.start .initial) = .ok w ∧
    sfsWriteWith 1 w.state 0 [7] 1 = .ok (1, s') ∧ (w.state.fdtable 0).inodeBid ≠ (w.state.fdtable 1).inodeBid ∧
    IsFile w.state.disk (w.state.fdtable 1).inodeBid ∧
    (∀ b, BlockOf w.state.disk (w.state.fdtable 1).inodeBid b → s'.disk.read b = w.state.disk.read b) ∧ WellFormed s'.disk := by
  obtain ⟨w, dirBid, run, dir, present, -, -, slots, apart, cursor, clear⟩ := twoFiles_world
  obtain ⟨w', own, run', serves⟩ := run_serves .initial (fun c w own _ fine => fine) twoFiles twoFiles_fine
  obtain rfl := Except.ok.inj (run.symm.trans run')
  have first : IsFile w.state.disk (w.state.fdtable 0).inodeBid :=
    isFile_of_slot dir (slots 0).1 (by decide) present (slots 0).2
  have second : IsFile w.state.disk (w.state.fdtable 1).inodeBid :=
    isFile_of_slot dir (slots 1).1 (by decide) present (slots 1).2
  have one : numBlocks 0 1 = 1 := rfl
  obtain ⟨s', written, others, -, -, -, -, wf⟩ := @sfsWrite_isolated w.state 1 0 0 _ [7] serves.healthy.wellFormed
    serves.healthy.coherent.nfreemapBlocks (fdIndex_val 0) rfl first (by rw [cursor]; decide) (by rw [cursor]; exact one.le)
    (by rw [cursor]; exact (holes_le _ _ _).trans (Bytes.clearCount_pos (by decide) clear))
  exact ⟨w, s', run, written, apart, second, others _ second apart.symm, wf⟩

/-! ### An image with one file -/

/-- Directory 2 holds the empty file with inode 3 and frame 4. -/
def oneFile : Image :=
  (((Image.blank.write 0 (setFirstDir (formatted .zero) 2)).write 1 (Bytes.zero.setWord 0 31)).write 2
    (Bytes.zero.setWord 31 3)).write 3 (Bytes.zero.setWord 1 4)

theorem read_oneFile {b : Nat} (h : b < 4096) : oneFile.read b =
    if b = 3 then Bytes.zero.setWord 1 4
    else if b = 2 then Bytes.zero.setWord 31 3
    else if b = 1 then Bytes.zero.setWord 0 31
    else if b = 0 then setFirstDir (formatted .zero) 2
    else .zero := by
  unfold oneFile
  split
  · rename_i eq
    rw [eq, Image.read_write]
  rw [Image.read_write_of_ne _ _ (by omega)]
  split
  · rename_i eq
    rw [eq, Image.read_write]
  rw [Image.read_write_of_ne _ _ (by omega)]
  split
  · rename_i eq
    rw [eq, Image.read_write]
  rw [Image.read_write_of_ne _ _ (by omega)]
  split
  · rename_i eq
    rw [eq, Image.read_write]
  rw [Image.read_write_of_ne _ _ (by omega), Image.read_blank]

def oneFileOwners (b : Nat) : Option Loc :=
  if b = 0 then some .boot else if b = 2 then some .firstDir else if b = 3 then some (.slot 2 0)
  else if b = 4 then some (.firstFrame 3) else none

theorem bit_oneFile {b : Nat} (h : b < 5) : (oneFile.read 1).bit b = true := by
  rw [read_oneFile (by decide), if_neg (by decide), if_neg (by decide), if_pos rfl, Bytes.bit,
    show b / 32 = 0 by omega, Bytes.word_setWord_self _ (by decide) (by decide), show (31 : Nat) = 2 ^ 5 - 1 from rfl,
    Nat.testBit_two_pow_sub_one, decide_eq_true_iff]
  omega

theorem oneFile_sound : Sound oneFileOwners oneFile := by
  have role : ∀ {b k}, Owners.role oneFileOwners b = some k →
      (b = 0 ∧ k = .super) ∨ (b = 2 ∧ k = .dir) ∨ (b = 3 ∧ k = .inode) ∨ (b = 4 ∧ k = .frame) := by
    intro b k used
    obtain ⟨l, owned, rfl⟩ := Scheme.role_eq_some used
    unfold oneFileOwners at owned
    split at owned
    · exact Or.inl ⟨‹_›, by rw [← Option.some.inj owned]; rfl⟩
    split at owned
    · exact Or.inr (Or.inl ⟨‹_›, by rw [← Option.some.inj owned]; rfl⟩)
    split at owned
    · exact Or.inr (Or.inr (Or.inl ⟨‹_›, by rw [← Option.some.inj owned]; rfl⟩))
    split at owned
    · exact Or.inr (Or.inr (Or.inr ⟨‹_›, by rw [← Option.some.inj owned]; rfl⟩))
    · cases owned
  refine ⟨rfl, rfl, bit_oneFile (by decide), fun {b l} owned => ?_, fun l live named => ?_⟩
  · have small : b < 5 := by
      rcases role (role_of_own owned) with ⟨rfl, _⟩ | ⟨rfl, _⟩ | ⟨rfl, _⟩ | ⟨rfl, _⟩ <;> decide
    exact ⟨by omega, bit_oneFile small⟩
  · obtain ⟨k, kind⟩ := Option.isSome_iff_exists.mp live.1
    have used := role (live.2.trans kind)
    have host : Loc.read oneFile l = (oneFile.read l.host).word l.field := rfl
    rcases used with ⟨at_, rfl⟩ | ⟨at_, rfl⟩ | ⟨at_, rfl⟩ | ⟨at_, rfl⟩
    · obtain rfl := hostKind_super kind
      have read : Loc.read oneFile .firstDir = 2 := by
        rw [Loc.read, read_oneFile (by decide)]
        exact Bytes.word_setWord_self _ (by decide) (by decide)
      rw [show layout.host .firstDir = 0 from rfl] at at_
      rw [read]; rfl
    · rw [host, show l.host = 2 from at_, read_oneFile (by decide), if_neg (by decide), if_pos rfl] at named ⊢
      rcases hostKind_dir kind with ⟨dir, rfl⟩ | ⟨dir, j, _, rfl⟩
      · exact absurd (Bytes.word_setWord_of_ne .zero (show 0 ≠ 31 by decide)) named
      · obtain rfl : dir = 2 := at_
        by_cases first : j = 0
        · subst first
          rw [show (Loc.slot 2 0).field = 31 from rfl, Bytes.word_setWord_self _ (by decide) (by decide)]
          rfl
        · refine absurd ?_ named
          rw [show (Loc.slot 2 j).field = 31 + j from rfl, Bytes.word_setWord_of_ne _ (by omega), Bytes.word_zero]
    · obtain ⟨inode, rfl⟩ := hostKind_inode kind
      obtain rfl : inode = 3 := at_
      have read : Loc.read oneFile (.firstFrame 3) = 4 := by
        rw [Loc.read, show (Loc.firstFrame 3).host = 3 from rfl, read_oneFile (by decide), if_pos rfl]
        exact Bytes.word_setWord_self _ (by decide) (by decide)
      rw [read]; rfl
    · rw [host, show l.host = 4 from at_, read_oneFile (by decide)] at named
      exact absurd (Bytes.word_zero _) named

theorem oneFile_inode {i : Nat} (used : Owners.role oneFileOwners i = some .inode) : i = 3 := by
  obtain ⟨l, owned, kind⟩ := Scheme.role_eq_some used
  unfold oneFileOwners at owned
  by_contra other
  split at owned
  · obtain rfl := Option.some.inj owned; cases kind
  split at owned
  · obtain rfl := Option.some.inj owned; cases kind
  split at owned
  · obtain rfl := Option.some.inj owned; cases kind
  · cases owned

theorem oneFile_clear : 0 < (oneFile.read 1).clearCount := by
  refine @Bytes.clearCount_pos_of_bits 512 (oneFile.read 1) (List.range 32) (fun b _ set => ?_) (by decide)
  by_contra high
  rw [List.mem_range] at high
  rw [read_oneFile (by decide), Bytes.bit] at set
  change ((Bytes.zero.setWord 0 31).word (b / 32)).testBit (b % 32) = true at set
  rw [Bytes.word_setWord_of_ne _ (by omega), Bytes.word_zero, Nat.zero_testBit] at set
  cases set

theorem oneFile_wellFormed : WellFormed oneFile := by
  apply oneFile_sound.wellFormed
  intro i used
  obtain rfl := oneFile_inode used
  rw [read_oneFile (by decide), if_pos rfl, firstFrame, Bytes.word_setWord_self _ (by decide) (by decide)]
  decide

theorem oneFile_isFile : IsFile oneFile 3 := by
  have dir : firstDir (oneFile.read 0) = 2 := by
    rw [read_oneFile (by decide)]
    exact Bytes.word_setWord_self _ (by decide) (by decide)
  have slot : inodes (oneFile.read 2) 0 = 3 := by
    rw [read_oneFile (by decide)]
    exact Bytes.word_setWord_self _ (by decide) (by decide)
  exact isFile_of_slot dir slot (by decide) (by decide) (by decide)

end StorageStack.Sfs
