import StorageStack.Sfs.Contents
import StorageStack.Sfs.Isolation
import StorageStack.Sfs.ReadFile

/-!
# Transfers

What a write or a read starts from: a sound image, and a descriptor that names a file with its frames. The
resize stage of a write inside the first frame only sets the size, attaching blocks changes no frame, and a
store to a block of the file keeps all others.
-/

namespace StorageStack.Sfs
open Lib CString

/-- What a transfer relies on: the image is sound and the descriptor names a file with the frames `fs`. -/
structure Ready (own : Owners) (s : State) (slot : Fin 32) (inode : Nat) (fs : List Nat) : Prop where
  sound : Sound own s.disk
  loaded : nfreemapBlocks s.sb ≠ 0
  super : nblocks (s.disk.read 0) ≠ 0
  role : Owners.role own inode = some .inode
  entry : (s.fdtable slot).inodeBid = inode
  chain : FrameChain s.disk inode fs
  framed : fs ≠ []

variable {own own' : Owners} {s s' : State} {d : Image} {fs : List Nat} {inode : Nat} {slot : Fin 32} {p n : Nat}

theorem Ready.roles (h : Ready own s slot inode fs) (f : Nat) (member : f ∈ fs) : Owners.role own f = some .frame :=
  (h.chain.mem h.sound h.role f member).1

/-! ### The blocks of a transfer -/

theorem entryAt_congr {d' : Image} (frames : ∀ f ∈ fs, d'.read f = d.read f) (super : d'.read 0 = d.read 0) (k : Nat) :
    entryAt d' fs k = entryAt d fs k := by
  unfold entryAt
  by_cases index : k / 127 < fs.length
  · rw [List.getD_eq_getElem?_getD, List.getElem?_eq_getElem index, Option.getD_some, frames _ (List.getElem_mem index)]
  · rw [List.getD_eq_getElem?_getD, List.getElem?_eq_none (by omega), Option.getD_none, super]

theorem bytes_of_block (named : entryAt d fs (p / 512) ≠ 0) (one : p % 512 + n ≤ 512) :
    ((d.read (entryAt d fs (p / 512))).toList.drop (p % 512)).take n = (List.range n).map fun i => byteAt d fs (p + i) := by
  apply List.ext_getElem?
  intro i
  rw [getElem?_slice, List.getElem?_map]
  by_cases inside : i < n
  · rw [if_pos inside, List.getElem?_range inside, Bytes.getElem?_toList _ (by omega), Option.map_some, byteAt,
      show (p + i) / 512 = p / 512 by omega, show (p + i) % 512 = p % 512 + i by omega, if_neg named]
  · rw [if_neg inside, List.getElem?_eq_none (by rw [List.length_range]; omega), Option.map_none]

/-! ### The stages of a write -/

/-- The size of the inode after the resize stage. -/
def resized (s : State) (inode p n : Nat) : Image :=
  s.disk.write inode (setSize (s.disk.read inode) (max (size (s.disk.read inode)) (p + n)))

theorem resizeStage_small (entry : (s.fdtable slot).inodeBid = inode) (cursor : (s.fdtable slot).cur = p)
    (small : p + n ≤ 65024) :
    ∃ t, resizeStage s slot n = .ok { s with fdtable := t, disk := resized s inode p n } ∧
      (t slot).inodeBid = inode ∧ (t slot).cur = p := by
  have total : toU32 ((n : Int) + (p : Nat)) = p + n := by
    unfold toU32
    omega
  have none := @missingFrames_small s (s.fdtable slot) n (by omega)
  unfold missingFrames at none
  dsimp only at none
  rw [entry, cursor, total] at none
  rw [resizeStage, entry, cursor, total]
  by_cases larger : p + n > size (s.disk.read inode)
  · rw [if_pos larger] at none
    refine ⟨(s.setFd slot ⟨s.disk.read inode, inode, (s.fdtable slot).dirBid, p, (s.fdtable slot).valid⟩).fdtable, ?_,
      by rw [setFd_self], by rw [setFd_self]⟩
    rw [if_pos larger, sfsResizeFile, setFd_self, setFd_disk]
    dsimp only
    rw [none, growFrames, ok_bind, resized, Nat.max_eq_right (by omega)]
    rfl
  · refine ⟨s.fdtable, ?_, entry, cursor⟩
    have same : setSize (s.disk.read inode) (size (s.disk.read inode)) = s.disk.read inode := Bytes.setWord_word _ _
    rw [if_neg larger, resized, Nat.max_eq_left (by omega), same, Image.write_read]

theorem Ready.resized (ready : Ready own s slot inode fs) {t : Fin 32 → Fd} (entry : (t slot).inodeBid = inode) :
    Ready own { s with fdtable := t, disk := resized s inode p n } slot inode fs ∧
      ∀ b, own b ≠ none → b ≠ inode → (Sfs.resized s inode p n).read b = s.disk.read b := by
  have small := ready.sound.role_lt ready.role
  have keep : ∀ b, own b ≠ none → b ≠ inode → (Sfs.resized s inode p n).read b = s.disk.read b := fun b used other =>
    Image.read_write_of_ne _ _ (by have := ready.sound.lt used; omega)
  have frames : ∀ f ∈ fs, (Sfs.resized s inode p n).read f = s.disk.read f := fun f m => by
    apply keep f (owned_of_role (ready.roles f m))
    intro same
    have role := ready.roles f m
    rw [same, ready.role] at role
    exact Kind.noConfusion (Option.some.inj role)
  refine ⟨⟨ready.sound.write_inode ready.role fun named => ?_, ready.loaded, ?_, ready.role, entry, ?_, ready.framed⟩, keep⟩
  · rw [firstFrame_setSize] at named ⊢
    exact ready.sound.firstFrame_owned ready.role named
  · dsimp only
    rw [keep 0 (by simp [ready.sound.boot]) (ready.sound.role_ne_zero ready.role (by decide)).symm]
    exact ready.super
  · unfold FrameChain
    dsimp only
    rw [Sfs.resized, Image.read_write, firstFrame_setSize]
    exact Chain.congr ready.chain fun f m => by rw [frameNext, frameNext]; exact congrArg nextFrame (frames f m)

theorem Ready.attached (ready : Ready own s slot inode fs) (attached : Attached fs own s own' s') :
    Ready own' s' slot inode fs ∧ s'.disk.read inode = s.disk.read inode := by
  have same : s'.disk.read inode = s.disk.read inode := attached.grows.kept (owned_of_role ready.role) fun m => by
    have role := ready.roles inode m
    rw [ready.role] at role
    exact Kind.noConfusion (Option.some.inj role)
  have super : s'.disk.read 0 = s.disk.read 0 := attached.grows.kept (by simp [ready.sound.boot]) fun m =>
    ready.sound.role_ne_zero (ready.roles 0 m) (by decide) rfl
  refine ⟨⟨attached.sound, by rw [attached.grows.sb]; exact ready.loaded, by rw [super]; exact ready.super,
    attached.grows.role ready.role, by rw [attached.grows.fdtable]; exact ready.entry, ?_, ready.framed⟩, same⟩
  unfold FrameChain
  rw [same]
  exact Chain.congr ready.chain fun f m => attached.next f m

theorem notData {b : Nat} {kind : Kind} (h : Owners.role own b = some kind) (other : kind ≠ .data) :
    Owners.role own b ≠ some .data := fun same => other (Option.some.inj (h.symm.trans same))

theorem Ready.store (ready : Ready own s slot inode fs) {k : Nat} (inside : k < 127 * fs.length)
    (named : entryAt s.disk fs k ≠ 0) (v : Block) {t : Fin 32 → Fd} (entry : (t slot).inodeBid = inode) :
    Ready own { s with fdtable := t, disk := s.disk.write (entryAt s.disk fs k) v } slot inode fs ∧
      ∀ b, Owners.role own b ≠ some .data → own b ≠ none → (s.disk.write (entryAt s.disk fs k) v).read b = s.disk.read b := by
  obtain ⟨f, -, owned⟩ := entryAt_owned ready.sound ready.roles inside named
  have role : Owners.role own (entryAt s.disk fs k) = some .data := role_of_own owned
  have small := ready.sound.role_lt role
  have keep : ∀ b, Owners.role own b ≠ some .data → own b ≠ none →
      (s.disk.write (entryAt s.disk fs k) v).read b = s.disk.read b := fun b other used => by
    have hb := ready.sound.lt used
    refine Image.read_write_of_ne _ _ fun same => other ?_
    rw [show b = entryAt s.disk fs k by omega]
    exact role
  refine ⟨⟨ready.sound.write_data role v, ready.loaded, ?_, ready.role, entry, ?_, ready.framed⟩, keep⟩
  · dsimp only
    rw [keep 0 (notData ready.sound.role_zero (by decide)) (by simp [ready.sound.boot])]
    exact ready.super
  · unfold FrameChain
    dsimp only
    rw [keep inode (notData ready.role (by decide)) (owned_of_role ready.role)]
    refine Chain.congr ready.chain fun f m => congrArg nextFrame (keep f (notData (ready.roles f m) (by decide)) ?_)
    exact owned_of_role (ready.roles f m)

/-! ### The array of ids -/

theorem contentLoop_room {cap remaining blockCount : Nat} {frame : Block} {bids : List Nat} {fill : Fill}
    (run : contentLoop cap remaining blockCount frame bids s = .ok fill) (room : bids.length ≤ cap) :
    fill.bids.length + fill.remaining = bids.length + remaining ∧ fill.bids.length ≤ cap := by
  induction remaining generalizing blockCount frame bids s with
  | zero =>
    rw [contentLoop] at run
    obtain rfl := Except.ok.inj run
    exact ⟨rfl, room⟩
  | succ remaining ih =>
    rw [contentLoop] at run
    by_cases inside : blockCount < SFS_FRAME_COUNT
    · rw [if_pos inside] at run
      obtain ⟨⟨frame', s'⟩, -, run⟩ := bind_ok run
      dsimp only at run
      by_cases store : bids.length < cap
      · rw [if_pos store] at run
        have rest := ih run (by rw [List.length_append, List.length_singleton]; omega)
        rw [List.length_append, List.length_singleton] at rest
        exact ⟨by omega, rest.2⟩
      · rw [if_neg store] at run
        cases run
    · rw [if_neg inside] at run
      obtain rfl := Except.ok.inj run
      exact ⟨rfl, room⟩

/-- Every id that is counted is stored, inside the array. -/
theorem frameLoop_count {cap fuel remaining count frameBid : Nat} {bids : List Nat} {r : List Nat × State}
    (run : frameLoop cap fuel remaining count frameBid bids s = .ok r) (room : bids.length ≤ cap) :
    r.1.length = bids.length + remaining ∧ r.1.length ≤ cap := by
  induction fuel generalizing remaining count frameBid bids s with
  | zero => cases run
  | succ fuel ih =>
    rw [frameLoop] at run
    by_cases done : remaining = 0
    · rw [if_pos done] at run
      obtain rfl := Except.ok.inj run
      exact ⟨by rw [done, Nat.add_zero], room⟩
    · rw [if_neg done] at run
      obtain ⟨fill, filled, run⟩ := bind_ok run
      have visit := contentLoop_room filled room
      have rest := ih run visit.2
      exact ⟨rest.1.trans visit.1, rest.2⟩

theorem frameLoop_room {cap fuel remaining count frameBid : Nat} {bids : List Nat} {r : List Nat × State}
    (run : frameLoop cap fuel remaining count frameBid bids s = .ok r) (room : bids.length ≤ cap) :
    bids.length + remaining ≤ cap := by
  have stored := frameLoop_count run room
  exact stored.1.symm.le.trans stored.2

/-! ### Descriptors -/

theorem sfsSeek_set {fd : Int} (index : fdIndex fd = .ok slot) (p : Nat) :
    sfsSeek s fd p 0 = .ok (0, s.setFd slot { s.fdtable slot with cur := p }) := by
  have target : newCur s slot p 0 = .ok (p : Int) := rfl
  rw [sfsSeek, index, ok_bind, target, ok_bind, if_neg (by omega), Int.toNat_natCast]

theorem Healthy.ready (h : Healthy own s) {entry : Fd} (here : s.fdtable slot = entry)
    (role : Owners.role own entry.inodeBid = some .inode) (file : FileOk s.disk entry.inodeBid fs) :
    Ready own s slot entry.inodeBid fs := by
  refine ⟨h.sound, h.coherent.loaded, ?_, role, by rw [here], file.chain, ?_⟩
  · rw [← h.coherent.sb, h.coherent.nblocks]
    decide
  · rintro rfl
    exact (h.usable role).framed file.chain

/-! ### One empty file -/

def oneFileLoaded : State := ⟨oneFile.read 0, oneFile.read 1, fun _ => ⟨oneFile.read 3, 3, 2, 0, 1⟩, oneFile⟩

theorem oneFile_healthy : Healthy oneFileOwners oneFileLoaded := by
  refine ⟨⟨rfl, rfl, ?_, ?_, ?_⟩, oneFile_sound, fun used => ?_⟩
  · decide +kernel
  · decide +kernel
  · decide +kernel
  · obtain rfl := oneFile_inode used
    exact ⟨by decide +kernel, by decide +kernel⟩

theorem oneFile_ok : FileOk oneFile 3 [4] := by
  have empty : size (oneFile.read 3) = 0 := by decide +kernel
  refine ⟨⟨by decide +kernel, by decide, ?_⟩, by rw [empty]; exact Nat.zero_le _, fun q _ high => ?_⟩
  · show nextFrame (oneFile.read 4) = 0
    decide +kernel
  have hole : entryAt oneFile [4] (q / 512) = 0 := by
    rw [entryAt_head (by simp only [List.length_singleton] at high; omega), read_oneFile (by decide)]
    exact Bytes.word_zero _
  rw [byteAt, hole]
  rfl

end StorageStack.Sfs
