import StorageStack.Sfs.Growth
import StorageStack.Sfs.Healthy

/-!
# Opening files

`sfs_open` looks through the slots of a directory. It finds the file, or it creates an inode with one
frame and one content block and stores the inode in the first slot that was free. When none was, the
index is -1 and the store lands in the last word of the directory's name.
-/

namespace StorageStack.Sfs
open Lib CString

def fileOf (d : Image) (i : Nat) : List UInt8 := scan (fileName (d.read i))

variable {own : Owners} {s : State} {d : Image} {dir : Block} {dirBid : Nat} {name : CString}

/-! ### The slot loop -/

/-- The local `free_inode` after the first `n` slots. -/
structure FreeSlot (dir : Block) (n : Nat) (freeInode : Int) : Prop where
  range : freeInode = -1 ∨ 0 ≤ freeInode ∧ freeInode < n
  empty : 0 ≤ freeInode → inodes dir freeInode.toNat = 0
  none : freeInode = -1 → ∀ k < n, inodes dir k ≠ 0

theorem FreeSlot.skip {n : Nat} {freeInode : Int} (h : FreeSlot dir n freeInode) (used : inodes dir n ≠ 0) :
    FreeSlot dir (n + 1) freeInode := by
  refine ⟨h.range.imp_right fun r => ⟨r.1, by omega⟩, h.empty, fun none k hk => ?_⟩
  by_cases last : k = n
  · rw [last]
    exact used
  · exact h.none none k (by omega)

theorem FreeSlot.hole {n : Nat} {freeInode : Int} (h : FreeSlot dir n freeInode) (unused : inodes dir n = 0) :
    FreeSlot dir (n + 1) (if freeInode = -1 then n else freeInode) := by
  by_cases first : freeInode = -1
  · rw [if_pos first]
    exact ⟨Or.inr ⟨by omega, by omega⟩, fun _ => by rwa [Int.toNat_natCast], fun none => by omega⟩
  · rw [if_neg first]
    refine ⟨h.range.imp_right fun r => ⟨r.1, by omega⟩, h.empty, fun none => absurd none first⟩

theorem FreeSlot.start (dir : Block) : FreeSlot dir 0 (-1) :=
  ⟨.inl rfl, fun no => absurd no (by decide), fun _ k hk => absurd hk (Nat.not_lt_zero k)⟩

def Holds (d : Image) (dir : Block) (name : List UInt8) (k : Nat) : Prop :=
  inodes dir k ≠ 0 ∧ fileOf d (inodes dir k) = name

theorem scanSlots_ok (name : CString) (inode : Block) {remaining count : Nat} {freeInode : Int}
    (total : count + remaining = SFS_DB_NINODES)
    (ends : ∀ k < SFS_DB_NINODES, inodes dir k ≠ 0 → 0 ∈ fileName (d.read (inodes dir k)))
    (free : FreeSlot dir count freeInode) (before : ∀ k < count, ¬ Holds d dir name.bytes k) :
    (∃ k < SFS_DB_NINODES, Holds d dir name.bytes k ∧
      scanSlots d dir name remaining count freeInode inode = .ok (.found (inodes dir k) (d.read (inodes dir k)))) ∨
    ∃ freeInode' inode', scanSlots d dir name remaining count freeInode inode = .ok (.absent freeInode' inode') ∧
      FreeSlot dir SFS_DB_NINODES freeInode' ∧ ∀ k < SFS_DB_NINODES, ¬ Holds d dir name.bytes k := by
  induction remaining generalizing count freeInode inode with
  | zero =>
    obtain rfl : count = SFS_DB_NINODES := total
    exact Or.inr ⟨freeInode, inode, rfl, free, before⟩
  | succ remaining ih =>
    have inside : count < SFS_DB_NINODES := by omega
    rw [scanSlots]
    dsimp only
    by_cases unused : inodes dir count = 0
    · rw [if_pos unused]
      refine ih _ (by omega) (free.hole unused) fun k hk => ?_
      by_cases last : k = count
      · rw [last]
        exact fun holds => holds.1 unused
      · exact before k (by omega)
    · rw [if_neg unused, strcmpEq_ok (ends count inside unused) name.nonzero, ok_bind]
      by_cases same : fileOf d (inodes dir count) = name.bytes
      · refine Or.inl ⟨count, inside, ⟨unused, same⟩, ?_⟩
        rw [show scan (fileName (d.read (inodes dir count))) = fileOf d (inodes dir count) from rfl, decide_eq_true same]
        rfl
      · rw [show scan (fileName (d.read (inodes dir count))) = fileOf d (inodes dir count) from rfl, decide_eq_false same]
        refine ih _ (by omega) (free.skip unused) fun k hk => ?_
        by_cases last : k = count
        · rw [last]
          exact fun holds => same holds.2
        · exact before k (by omega)

/-! ### Creating a file -/

/-- The word of the directory that the new inode goes to. -/
def slotWord (freeInode : Int) : Nat := (31 + freeInode).toNat

/-- The location that stands for it. With all slots in use the word is no location, and neither is slot 97. -/
def slotLoc (dirBid : Nat) (freeInode : Int) : Loc :=
  .slot dirBid (if freeInode = -1 then SFS_DB_NINODES else freeInode.toNat)

/-- What creating a file in directory `dirBid` leaves. -/
structure Created (dirBid : Nat) (freeInode : Int) (name : CString) (own : Owners) (s : State) (own' : Owners) (s' : State)
    (inodeBid : Nat) : Prop where
  sound : Sound own' s'.disk
  grows : Grows (· = dirBid) own own' s s'
  fresh : own inodeBid = none
  owned : own' inodeBid = some (slotLoc dirBid freeInode)
  dir : s'.disk.read dirBid = (s.disk.read dirBid).setWord (slotWord freeInode) inodeBid
  name : fileOf s'.disk inodeBid = name.bytes
  usable : Usable (s'.disk.read inodeBid)
  inodes : ∀ i, Owners.role own' i = some .inode → i = inodeBid ∨ Owners.role own i = some .inode
  ext : freeInode ≠ -1 → layout.Extends dirBid own (Loc.read s.disk) own' (Loc.read s'.disk)

theorem newInode_ok (inode : Block) (fits : name.bytes.length ≤ 503) {b : Nat} (small : b < 4294967296) (some : b ≠ 0) :
    ∃ v, strcpy inode 8 name.bytes = .ok v ∧ firstFrame (setSize (setFirstFrame v b) 0) = b ∧
      scan (fileName (setSize (setFirstFrame v b) 0)) = name.bytes ∧ Usable (setSize (setFirstFrame v b) 0) := by
  have room : 8 + name.bytes.length + 1 ≤ 512 := by omega
  have size : (name.bytes ++ [0]).length = name.bytes.length + 1 := List.length_append
  have first : ∀ v : Block, firstFrame (setSize (setFirstFrame v b) 0) = b := fun v => by
    rw [firstFrame_setSize, firstFrame_setFirstFrame small]
  have stored : fileName (setSize (setFirstFrame (inode.patch 8 (name.bytes ++ [0])) b) 0) =
      name.bytes ++ 0 :: inode.toList.drop (8 + (name.bytes ++ [0]).length) := by
    rw [fileName_setSize, fileName_setFirstFrame, fileName, Bytes.toList_drop_patch _ (by omega), List.append_assoc]
    rfl
  refine ⟨_, by rw [strcpy, if_pos room], first _, by rw [stored, scan_append_zero name.nonzero], ⟨?_, ?_⟩⟩
  · rw [stored]
    simp
  · rw [first]
    exact some

theorem attach_ok (sound : Sound own s.disk) (loaded : nfreemapBlocks s.sb ≠ 0) (free : 0 < (s.disk.read 1).clearCount)
    (l : Loc) (host : own l.host ≠ none) (v : Nat → Block)
    (new : ∀ b < 4096, layout.Live own l → (v b).word l.field = b)
    (same : ∀ b m, layout.Live own m → m.host = l.host → m ≠ l → (v b).word m.field = m.read s.disk) :
    ∃ b own' s', sfsAllocBlock s = .ok (b, s.take b) ∧ s' = { s.take b with disk := (s.take b).disk.write l.host (v b) } ∧
      b ≠ 0 ∧ b < 4096 ∧ own b = none ∧ own' b = some l ∧ (∀ c, c ≠ b → own' c = own c) ∧ Sound own' s'.disk ∧
      Grows (· = l.host) own own' s s' ∧ s'.disk.read l.host = v b ∧ s'.disk.read b = .zero ∧
      (s'.disk.read 1).clearCount + 1 = (s.disk.read 1).clearCount ∧
      (layout.Live own l → l.read s.disk = 0 → layout.Extends l.host own (Loc.read s.disk) own' (Loc.read s'.disk)) := by
  obtain ⟨b, run, hb, clear, -⟩ := sfsAllocBlock_ok loaded free
  have unowned := sound.free_of_clear clear
  have notMap := sound.clear_ne_one clear
  have hl := sound.lt host
  have lMap := sound.ne_one host
  have apart : l.host ≠ b := fun here => host (here ▸ unowned)
  have grows := Grows.take sound hb clear l
  have sound' := sound.take hb clear l
  have map : ((s.take b).disk.write l.host (v b)).read 1 = (s.disk.read 1).setBit b := by
    rw [Image.read_write_of_ne _ _ (by omega), read_take_map hb notMap]
  refine ⟨b, Function.update own b (some l), _, run, rfl, sound.clear_ne_zero clear, hb, unowned, Function.update_self ..,
    fun c other => Function.update_of_ne other .., ?_, ?_, Image.read_write _ _ _, ?_, ?_, fun live unused => ?_⟩
  · apply sound'.write hl lMap
    intro m live here named
    have before : layout.Live own m := live.congr (by
      rw [show layout.host m = l.host from here, Function.update_of_ne apart])
    by_cases itself : m = l
    · subst itself
      rw [new b hb before, Function.update_self]
    · rw [same b m before here itself] at named ⊢
      exact grows.grow (sound.refs m before named)
  · exact (grows.mono fun _ no => no.elim).trans (Grows.write sound' hl lMap (v b)) fun _ _ eq => eq
  · exact (Image.read_write_of_ne _ _ (by omega)).trans (read_take_self s b)
  · show (((s.take b).disk.write l.host (v b)).read 1).clearCount + 1 = _
    rw [map, Bytes.clearCount_setBit (by omega) clear]
  · have here : ∀ m : Loc, m.host = l.host → m.read ((s.take b).disk.write l.host (v b)) = (v b).word m.field :=
      fun m inside => by
      rw [Loc.read, inside, Image.read_write]
    refine .of_hosts (fun _ _ => grows.grow) (fun m holds => ?_) fun c free used => ?_
    · by_cases inside : m.host = l.host
      · have other : m ≠ l := by
          rintro rfl
          exact sound.ne_zero_of_holds holds unused
        rw [here m inside, same b m holds.1 inside other]
      · have small := sound.lt (owned_of_live holds.1)
        rw [Loc.read, Loc.read, Image.read_write_of_ne _ _ (by omega), grows.kept (owned_of_live holds.1) id]
    · obtain rfl : c = b := by
        by_contra other
        exact used (by rw [Function.update_of_ne other, free])
      exact ⟨l, Function.update_self .., live.congr (Function.update_of_ne apart ..), by rw [here l rfl, new c hb live], .root⟩

/-- What it leaves when `dirBid` is some block that is taken for a directory. -/
structure Built (dirBid : Nat) (freeInode : Int) (name : CString) (own : Owners) (s : State) (own' : Owners) (s' : State)
    (inodeBid : Nat) : Prop where
  sound : Sound own' s'.disk
  grows : Grows (· = dirBid) own own' s s'
  fresh : own inodeBid = none
  owned : own' inodeBid = some (slotLoc dirBid freeInode)
  dir : s'.disk.read dirBid = (s.disk.read dirBid).setWord (slotWord freeInode) inodeBid
  name : fileOf s'.disk inodeBid = name.bytes
  usable : Usable (s'.disk.read inodeBid)
  inodes : ∀ i, Owners.role own' i = some .inode → i = inodeBid ∨ Owners.role own i = some .inode

/-- No location of the block is behind its name, slots excepted. -/
def SlotsOnly (own : Owners) (dirBid : Nat) : Prop :=
  ∀ m : Loc, layout.Live own m → m.host = dirBid → 30 ≤ m.field → ∃ k, m = .slot dirBid k

theorem slotsOnly_dir (role : Owners.role own dirBid = some .dir) : SlotsOnly own dirBid := by
  intro m live here behind
  rcases hostKind_dir (live_cases live here role) with ⟨dir, rfl⟩ | ⟨dir, k, hk, rfl⟩
  · have word : 30 ≤ 0 := behind
    omega
  · obtain rfl : dir = dirBid := here
    exact ⟨k, rfl⟩

theorem createFile_at (inode : Block) {freeInode : Int} (h : Healthy own s) (used : own dirBid ≠ none)
    (slots : SlotsOnly own dirBid) (free : FreeSlot (s.disk.read dirBid) SFS_DB_NINODES freeInode)
    (fits : name.bytes.length ≤ 503) (room : 3 ≤ (s.disk.read 1).clearCount) :
    ∃ own' s' inodeBid inode', createFile s dirBid (s.disk.read dirBid) freeInode inode name = .ok (inodeBid, inode', s') ∧
      Built dirBid freeInode name own s own' s' inodeBid ∧
      (layout.Live own (slotLoc dirBid freeInode) → (slotLoc dirBid freeInode).read s.disk = 0 →
        layout.Extends dirBid own (Loc.read s.disk) own' (Loc.read s'.disk)) := by
  have range : 30 ≤ slotWord freeInode ∧ slotWord freeInode < 128 := by
    have := free.range
    unfold slotWord SFS_DB_NINODES at *
    omega
  have stored : ∀ b, setInodes (s.disk.read dirBid) freeInode b =
      .ok ((s.disk.read dirBid).setWord (slotWord freeInode) b) := fun b => if_pos (by
    have := free.range
    unfold SFS_DB_NINODES at this
    omega)
  -- The inode block goes into the directory …
  obtain ⟨i, own₁, s₁, run₁, reached₁, iZero, hi, iFree, owned₁, old₁, sound₁, grows₁, dir₁, empty₁, count₁, ext₁⟩ :=
    attach_ok h.sound
    h.coherent.loaded (by omega) (slotLoc dirBid freeInode) used
    (fun b => (s.disk.read dirBid).setWord (slotWord freeInode) b)
    (fun b hb live => by
      have inside : freeInode ≠ -1 := by
        rintro rfl
        obtain ⟨k, hk⟩ := Option.isSome_iff_exists.mp live.1
        cases hk
      have := free.range
      have field : 31 + freeInode.toNat = slotWord freeInode := by unfold slotWord; omega
      rw [slotLoc, if_neg inside, show (Loc.slot dirBid freeInode.toNat).field = slotWord freeInode from field]
      exact Bytes.word_setWord_self _ (by omega) (by omega))
    (fun b m live here other => by
      rw [show m.read s.disk = (s.disk.read dirBid).word m.field by rw [Loc.read, show m.host = dirBid from here]]
      apply Bytes.word_setWord_of_ne _
      intro same
      obtain ⟨k, rfl⟩ := slots m live here (same ▸ range.1)
      have word : 31 + k = slotWord freeInode := same
      unfold slotWord at word
      rw [slotLoc, if_neg (by omega), show freeInode.toNat = k by omega] at other
      exact other rfl)
  have iDir : i ≠ dirBid := by rintro rfl; exact used iFree
  have role₁ : Owners.role own₁ i = some .inode := role_of_own owned₁
  -- … its first frame goes into the inode …
  obtain ⟨v, filled, -⟩ := newInode_ok inode fits (b := 1) (by decide) (by decide)
  have inodes : ∀ b < 4096, b ≠ 0 → firstFrame (setSize (setFirstFrame v b) 0) = b ∧
      scan (fileName (setSize (setFirstFrame v b) 0)) = name.bytes ∧ Usable (setSize (setFirstFrame v b) 0) :=
    fun b hb some => by
      obtain ⟨v', filled', rest⟩ := newInode_ok inode fits (show b < 4294967296 by omega) some
      obtain rfl := Except.ok.inj (filled.symm.trans filled')
      exact rest
  obtain ⟨f, own₂, s₂, run₂, reached₂, fZero, hf, fFree, owned₂, old₂, sound₂, grows₂, inode₂, frame₂, count₂, ext₂⟩ :=
    attach_ok sound₁
    (by rw [grows₁.sb]; exact h.coherent.loaded) (by omega) (.firstFrame i)
      (by rw [show (Loc.firstFrame i).host = i from rfl, owned₁]; simp)
    (fun b => setSize (setFirstFrame v b) 0)
    (fun b hb _ => by
      show firstFrame _ = b
      rw [firstFrame_setSize, firstFrame_setFirstFrame (by omega)])
    (fun b m live here other => by
      obtain ⟨i', rfl⟩ := hostKind_inode (live_cases live here role₁)
      obtain rfl : i' = i := here
      exact absurd rfl other)
  have fI : f ≠ i := by rintro rfl; rw [owned₁] at fFree; cases fFree
  -- … and a content block into the frame.
  obtain ⟨c, own₃, s₃, run₃, reached₃, cZero, hc, cFree, owned₃, old₃, sound₃, grows₃, -, -, -, ext₃⟩ := attach_ok sound₂
    (by rw [grows₂.sb, grows₁.sb]; exact h.coherent.loaded) (by omega) (.content f 0)
    (by rw [show (Loc.content f 0).host = f from rfl, owned₂]; simp) (fun b => setContent .zero 0 b)
    (fun b hb _ => by
      show content _ 0 = b
      rw [content_setContent (by decide) (by omega), if_pos rfl])
    (fun b m live here other => by
      rw [show m.read s₂.disk = (s₂.disk.read f).word m.field by rw [Loc.read, show m.host = f from here], frame₂]
      apply Bytes.word_setWord_of_ne _
      intro same
      rcases hostKind_frame (live_cases live here (role_of_own owned₂)) with ⟨f', rfl⟩ | ⟨f', j, hj, rfl⟩
      · have word : 0 = 1 + 0 := same
        omega
      · obtain rfl : f' = f := here
        have word : 1 + j = 1 + 0 := same
        exact other (by rw [show j = 0 by omega]))
  have iOwned₂ := grows₂.grow owned₁
  have keepDir : s₃.disk.read dirBid = s₁.disk.read dirBid := by
    have used₁ := grows₁.owned used
    rw [grows₃.kept (grows₂.owned used₁) fun here => ?_, grows₂.kept used₁ fun here => iDir here.symm]
    rw [show dirBid = f from here, fFree] at used₁
    exact used₁ rfl
  have keepInode : s₃.disk.read i = setSize (setFirstFrame v f) 0 := by
    rw [grows₃.kept (by rw [iOwned₂]; simp) fun here => fI here.symm]
    exact inode₂
  obtain ⟨-, named, usable⟩ := inodes f hf fZero
  refine ⟨own₃, s₃, i, setSize (setFirstFrame v f) 0, ?_, ⟨sound₃, ?_, iFree, grows₃.grow iOwned₂, keepDir.trans dir₁,
    by rw [fileOf, keepInode, named], by rw [keepInode]; exact usable, fun j hj => ?_⟩, fun live unused => ?_⟩
  · dsimp only [slotLoc, Loc.host] at reached₁ reached₂ reached₃
    rw [createFile, run₁, ok_bind]
    dsimp only
    rw [stored, ok_bind, filled, ok_bind, ← reached₁, run₂, ok_bind]
    dsimp only
    rw [← reached₂, show (s₁.take f).disk.write i (setSize (setFirstFrame v f) 0) = s₂.disk by rw [reached₂], frame₂, run₃,
      ok_bind]
    dsimp only
    rw [← reached₃]
  · refine (grows₁.trans grows₂ fun b used here => ?_).trans grows₃ fun b used here => ?_
    · rw [show b = i from here, iFree] at used
      exact absurd rfl used
    · rw [show b = f from here] at used
      exact absurd fFree (grows₁.owned used)
  · by_cases new : j = i
    · exact Or.inl new
    · apply Or.inr
      have notData : j ≠ c := by
        rintro rfl
        rw [role_of_own owned₃] at hj
        cases hj
      have notFrame : j ≠ f := by
        rintro rfl
        rw [role_of_own (grows₃.grow owned₂)] at hj
        cases hj
      unfold Owners.role Scheme.role at hj ⊢
      rwa [old₃ j notData, old₂ j notFrame, old₁ j new] at hj
  -- Each of the three blocks hangs below the one before.
  · have first := ext₁ live unused
    have second := ext₂ (live_firstFrame role₁)
      (by rw [Loc.read, show (Loc.firstFrame i).host = i from rfl, empty₁]; exact Bytes.word_zero 1)
    have third := ext₃ (live_content (role_of_own owned₂) (by decide))
      (by rw [Loc.read, show (Loc.content f 0).host = f from rfl, frame₂]; exact Bytes.word_zero 1)
    have below := second.anchored (first.fresh i iFree (by rw [owned₁]; simp))
    have both := first.trans (second.under below)
    exact both.trans (third.under (third.anchored ((second.fresh f fFree (by rw [owned₂]; simp)).trans below)))

theorem createFile_ok (inode : Block) {freeInode : Int} (h : Healthy own s) (role : Owners.role own dirBid = some .dir)
    (free : FreeSlot (s.disk.read dirBid) SFS_DB_NINODES freeInode) (fits : name.bytes.length ≤ 503)
    (room : 3 ≤ (s.disk.read 1).clearCount) :
    ∃ own' s' inodeBid inode', createFile s dirBid (s.disk.read dirBid) freeInode inode name = .ok (inodeBid, inode', s') ∧
      Created dirBid freeInode name own s own' s' inodeBid := by
  obtain ⟨own', s', inodeBid, inode', run, built, ext⟩ := createFile_at inode h (owned_of_role role) (slotsOnly_dir role) free
    fits room
  refine ⟨own', s', inodeBid, inode', run, built.sound, built.grows, built.fresh, built.owned, built.dir, built.name,
    built.usable, built.inodes, fun inside => ?_⟩
  have range := free.range.resolve_left inside
  have slot : slotLoc dirBid freeInode = .slot dirBid freeInode.toNat := by rw [slotLoc, if_neg inside]
  exact ext (by rw [slot]; exact live_slot role (by omega)) (by rw [slot]; exact free.empty range.1)

/-- The inode, the frame and the first block of a new file were free. -/
structure NewFile (s : State) (i f c : Nat) (v : Block) (s' : State) : Prop where
  clear : ∀ b ∈ [i, f, c], b < 4096 ∧ (s.disk.read 1).bit b = false
  first : firstFrame v = f
  size : size v = 0
  inode : s'.disk.read i = v
  frame : s'.disk.read f = setContent .zero 0 c
  block : s'.disk.read c = .zero

theorem createFile_inv {dir inode v : Block} {freeInode : Int} {i : Nat} {s' : State} (h : Healthy own s)
    (used : own dirBid ≠ none) (run : createFile s dirBid dir freeInode inode name = .ok (i, v, s')) :
    ∃ f c, NewFile s i f c v s' := by
  have small := h.sound.lt used
  have notMap := h.sound.ne_one used
  rw [createFile] at run
  obtain ⟨⟨i', s₁⟩, first, run⟩ := bind_ok run
  dsimp only at run
  obtain ⟨dir', -, run⟩ := bind_ok run
  obtain ⟨filled, -, run⟩ := bind_ok run
  obtain ⟨⟨f, s₂⟩, second, run⟩ := bind_ok run
  dsimp only at run
  obtain ⟨⟨c, s₃⟩, third, run⟩ := bind_ok run
  obtain ⟨rfl, same⟩ := Prod.mk.inj (Except.ok.inj run)
  obtain ⟨rfl, rfl⟩ := Prod.mk.inj same
  obtain ⟨rfl, hi, iClear, -⟩ := sfsAllocBlock_inv h.coherent.loaded first
  obtain ⟨rfl, hf, fClear, -⟩ := sfsAllocBlock_inv (by exact h.coherent.loaded) second
  obtain ⟨rfl, hc, cClear, -⟩ := sfsAllocBlock_inv (by exact h.coherent.loaded) third
  have iMap := h.sound.clear_ne_one iClear
  -- Each allocation sees the bits of the ones before.
  dsimp only at fClear cClear
  rw [Image.read_write_of_ne _ _ (by omega), read_take_map hi iMap, Bytes.bit_setBit _ (by omega), Bool.or_eq_false_iff,
    decide_eq_false_iff_not] at fClear
  obtain ⟨fClear, fi⟩ := fClear
  have fMap := h.sound.clear_ne_one fClear
  have map₁ : (((s.take i').disk.write dirBid dir').read 1).bit = ((s.disk.read 1).setBit i').bit := by
    rw [Image.read_write_of_ne _ _ (by omega), read_take_map hi iMap]
  rw [Image.read_write_of_ne _ _ (by omega), read_take_map hf fMap, Bytes.bit_setBit _ (by omega), map₁,
    Bytes.bit_setBit _ (by omega), Bool.or_eq_false_iff, Bool.or_eq_false_iff, decide_eq_false_iff_not,
    decide_eq_false_iff_not] at cClear
  obtain ⟨⟨cClear, ci⟩, cf⟩ := cClear
  refine ⟨f, c, ⟨?_, ?_, size_setSize (by decide), ?_, ?_, ?_⟩⟩
  · simp only [List.mem_cons, List.not_mem_nil, or_false]
    rintro b (rfl | rfl | rfl)
    · exact ⟨hi, iClear⟩
    · exact ⟨hf, fClear⟩
    · exact ⟨hc, cClear⟩
  · rw [firstFrame_setSize, firstFrame_setFirstFrame (by omega)]
  -- The frame was empty, so its only entry is the new block.
  · dsimp only
    rw [Image.read_write_of_ne _ _ (by omega), read_take_of_ne hc hi iMap (Ne.symm ci)]
    exact Image.read_write _ _ _
  · dsimp only
    rw [Image.read_write, Image.read_write_of_ne _ _ (by omega), read_take_self]
  · dsimp only
    rw [Image.read_write_of_ne _ _ (by omega), read_take_self]

theorem Created.healthy {own' : Owners} {s' : State} {freeInode : Int} {inodeBid : Nat} (h : Healthy own s)
    (role : Owners.role own dirBid = some .dir) (created : Created dirBid freeInode name own s own' s' inodeBid) :
    Healthy own' s' := by
  have zero : s'.disk.read 0 = s.disk.read 0 := created.grows.kept (by simp [h.sound.boot]) fun here =>
    h.sound.role_ne_zero role (by decide) here.symm
  have coherent := h.coherent
  refine ⟨⟨by rw [zero, ← coherent.sb]; exact created.grows.sb, created.grows.flushed coherent.freemap,
    by rw [created.grows.sb]; exact coherent.magic, by rw [created.grows.sb]; exact coherent.nblocks,
    by rw [created.grows.sb]; exact coherent.nfreemapBlocks⟩, created.sound, fun {i} usable => ?_⟩
  rcases created.inodes i usable with rfl | before
  · exact created.usable
  · rw [created.grows.kept (owned_of_role before) fun here => ?_]
    · exact h.usable before
    · rw [show i = dirBid from here, role] at before
      cases before

/-! ### `sfs_open` -/

variable {dirname : CString} {inode : Block}

theorem Healthy.findDir (h : Healthy own s) (found : sfsFindDir s dirname = .ok dirBid) (present : dirBid ≠ 0) :
    Owners.role own dirBid = some .dir ∧ nameOf s.disk dirBid = dirname.bytes := by
  obtain ⟨ids, walk, roles⟩ := h.walkable
  rcases walk.find_cases dirname with ⟨none, _⟩ | ⟨front, id, back, rfl, found', named⟩
  · rw [none] at found
    exact absurd (Except.ok.inj found).symm present
  · obtain rfl : dirBid = id := Except.ok.inj (found.symm.trans found')
    exact ⟨roles dirBid (by simp), named⟩

theorem Healthy.slot_role (h : Healthy own s) (role : Owners.role own dirBid = some .dir) {k : Nat}
    (hk : k < SFS_DB_NINODES) (used : inodes (s.disk.read dirBid) k ≠ 0) :
    own (inodes (s.disk.read dirBid) k) = some (.slot dirBid k) ∧
      Owners.role own (inodes (s.disk.read dirBid) k) = some .inode := by
  have owned := h.sound.slot_owned role hk used
  exact ⟨owned, role_of_own owned⟩

theorem sfsOpen_full (full : findFd s = none) : sfsOpen s inode dirname name = .ok (-1, s) := by rw [sfsOpen, full]

section
variable {fd : Fin 32} {v : Block}

theorem sfsOpen_found {i : Nat} (free : findFd s = some fd) (found : sfsFindDir s dirname = .ok dirBid)
    (scanned : scanSlots s.disk (s.disk.read dirBid) name SFS_DB_NINODES 0 (-1) inode = .ok (.found i v)) :
    sfsOpen s inode dirname name = .ok ((fd.val : Nat), s.setFd fd ⟨v, i, dirBid, 0, 1⟩) := by
  rw [sfsOpen, free]
  dsimp only
  rw [found, ok_bind, scanned, ok_bind]

theorem sfsOpen_absent {freeInode : Int} (free : findFd s = some fd) (found : sfsFindDir s dirname = .ok dirBid)
    (scanned : scanSlots s.disk (s.disk.read dirBid) name SFS_DB_NINODES 0 (-1) inode = .ok (.absent freeInode v)) :
    sfsOpen s inode dirname name = createFile s dirBid (s.disk.read dirBid) freeInode v name >>= fun made =>
      .ok (((fd.val : Nat) : Int), made.2.2.setFd fd ⟨made.2.1, made.1, dirBid, 0, 1⟩) := by
  rw [sfsOpen, free]
  dsimp only
  rw [found, ok_bind, scanned, ok_bind]

end

/-- With a directory that exists, a free descriptor is used for the file that is there or for a new one. -/
theorem sfsOpen_ok (inode : Block) (h : Healthy own s) (found : sfsFindDir s dirname = .ok dirBid) (present : dirBid ≠ 0)
    (fits : name.bytes.length ≤ 503)
    (room : (∀ k < SFS_DB_NINODES, ¬ Holds s.disk (s.disk.read dirBid) name.bytes k) → 3 ≤ (s.disk.read 1).clearCount) :
    (findFd s = none ∧ sfsOpen s inode dirname name = .ok (-1, s)) ∨ ∃ fd, findFd s = some fd ∧
      ((∃ k < SFS_DB_NINODES, Holds s.disk (s.disk.read dirBid) name.bytes k ∧
          sfsOpen s inode dirname name = .ok ((fd.val : Nat), s.setFd fd
            ⟨s.disk.read (inodes (s.disk.read dirBid) k), inodes (s.disk.read dirBid) k, dirBid, 0, 1⟩)) ∨
        (∀ k < SFS_DB_NINODES, ¬ Holds s.disk (s.disk.read dirBid) name.bytes k) ∧
          ∃ freeInode own' s' inodeBid inode', FreeSlot (s.disk.read dirBid) SFS_DB_NINODES freeInode ∧
            Created dirBid freeInode name own s own' s' inodeBid ∧ sfsOpen s inode dirname name =
              .ok ((fd.val : Nat), s'.setFd fd ⟨inode', inodeBid, dirBid, 0, 1⟩)) := by
  obtain ⟨role, -⟩ := h.findDir found present
  cases table : findFd s with
  | none => exact Or.inl ⟨rfl, sfsOpen_full table⟩
  | some fd =>
    refine Or.inr ⟨fd, rfl, ?_⟩
    rcases scanSlots_ok name inode (Nat.zero_add SFS_DB_NINODES)
      (fun k hk used => (h.usable (h.slot_role role hk used).2).ends) (.start _) (fun k hk => absurd hk (Nat.not_lt_zero k))
      with ⟨k, hk, holds, scanned⟩ | ⟨freeInode, inode', scanned, free, absent⟩
    · exact Or.inl ⟨k, hk, holds, sfsOpen_found table found scanned⟩
    · obtain ⟨own', s', inodeBid, inode'', created, result⟩ := createFile_ok inode' h role free fits (room absent)
      refine Or.inr ⟨absent, freeInode, own', s', inodeBid, inode'', free, result, ?_⟩
      rw [sfsOpen_absent table found scanned, created, ok_bind]

/-- A descriptor whose file is there: the inode belongs to a slot of the directory block, or did so when that
block was a directory. -/
structure LiveFd (own : Owners) (entry : Fd) : Prop where
  slot : ∃ k, own entry.inodeBid = some (.slot entry.dirBid k)
  range : 2 ≤ entry.dirBid ∧ entry.dirBid < 4096

theorem LiveFd.role {entry : Fd} (h : LiveFd own entry) : Owners.role own entry.inodeBid = some .inode := by
  obtain ⟨k, owned⟩ := h.slot
  exact role_of_own owned

theorem LiveFd.kept {own' : Owners} {entry : Fd} (h : LiveFd own entry) (kept : FilesKept own own') : LiveFd own' entry := by
  obtain ⟨k, owned⟩ := h.slot
  exact ⟨⟨k, kept owned (fun no => Kind.noConfusion no)⟩, h.range⟩

/-- A new file finds an empty slot. -/
def SlotFor (s : State) (dirBid : Nat) (name : CString) : Prop :=
  (∀ k < SFS_DB_NINODES, ¬ Holds s.disk (s.disk.read dirBid) name.bytes k) → ∃ k < SFS_DB_NINODES,
    inodes (s.disk.read dirBid) k = 0

theorem Created.tight {own' : Owners} {s' : State} {freeInode : Int} {inodeBid : Nat} (h : Healthy own s)
    (role : Owners.role own dirBid = some .dir) (created : Created dirBid freeInode name own s own' s' inodeBid)
    (slot : freeInode ≠ -1) (tight : Tight own s.disk) : Tight own' s'.disk :=
  tight.extend h.sound (fun b hb => (created.grows.bits b hb).mp) (created.ext slot) (owned_of_role role)

theorem open_healthy (inode : Block) (h : Healthy own s) (found : sfsFindDir s dirname = .ok dirBid) (present : dirBid ≠ 0)
    (fits : name.bytes.length ≤ 503)
    (room : (∀ k < SFS_DB_NINODES, ¬ Holds s.disk (s.disk.read dirBid) name.bytes k) → 3 ≤ (s.disk.read 1).clearCount) :
    ∃ r own' s', sfsOpen s inode dirname name = .ok (r, s') ∧ Healthy own' s' ∧ FilesKept own own' ∧
      (SlotFor s dirBid name → Tight own s.disk → Tight own' s'.disk) ∧
      ((findFd s = none ∧ r = -1 ∧ s' = s) ∨ ∃ fd : Fin 32, findFd s = some fd ∧ r = (fd.val : Nat) ∧
        (∀ i, i ≠ fd → s'.fdtable i = s.fdtable i) ∧ LiveFd own' (s'.fdtable fd) ∧ (s'.fdtable fd).valid = 1) := by
  obtain ⟨role, -⟩ := h.findDir found present
  have range : 2 ≤ dirBid ∧ dirBid < 4096 := by
    have := h.sound.role_ne_one role
    have := h.sound.role_lt role
    omega
  rcases sfsOpen_ok inode h found present fits room with ⟨full, run⟩ |
    ⟨fd, free, ⟨k, hk, holds, run⟩ | ⟨absent, f, own', s', i, v, slots, created, run⟩⟩
  · exact ⟨_, own, s, run, h, fun owned _ => owned, fun _ tight => tight, Or.inl ⟨full, rfl, rfl⟩⟩
  · refine ⟨_, own, _, run, h.setFd _ _, fun owned _ => owned, fun _ tight => tight,
      Or.inr ⟨fd, free, rfl, fun i other => setFd_of_ne _ _ other, ?_⟩⟩
    rw [setFd_self]
    exact ⟨⟨⟨k, (h.slot_role role hk holds.1).1⟩, range⟩, rfl⟩
  · have saved : SlotFor s dirBid name → Tight own s.disk → Tight own' s'.disk := by
      intro spare
      obtain ⟨k, hk, unused⟩ := spare absent
      exact created.tight h role fun none => slots.none none k hk unused
    refine ⟨_, own', _, run, (created.healthy h role).setFd _ _, fun owned _ => created.grows.grow owned,
      saved, Or.inr ⟨fd, free, rfl, fun i other => by rw [setFd_of_ne _ _ other, created.grows.fdtable], ?_⟩⟩
    rw [setFd_self]
    exact ⟨⟨⟨_, created.owned⟩, range⟩, rfl⟩

end StorageStack.Sfs
