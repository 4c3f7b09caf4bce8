import StorageStack.Sfs.FileBlocks

/-!
# The contents of a file

The bytes of a file are the bytes of its blocks in the order of its frames; an entry that is zero stands for
a block of zeros. Attaching blocks changes no byte, and a store to one block changes the bytes of that block
only, because no two entries name the same one.
-/

namespace StorageStack.Sfs
open Lib CString

/-- Byte `q` of the frames `fs`. -/
def byteAt (d : Image) (fs : List Nat) (q : Nat) : UInt8 :=
  let b := entryAt d fs (q / 512)
  if b = 0 then 0 else (d.read b).get (q % 512)

/-- The file of an inode block consists of `bytes`. -/
def FileHolds (d : Image) (inode : Nat) (bytes : List UInt8) : Prop :=
  ∃ fs, FrameChain d inode fs ∧ size (d.read inode) ≤ 65024 * fs.length ∧
    bytes = (List.range (size (d.read inode))).map (byteAt d fs)

/-- `bytes`, filled up with zeros to `p` if they are fewer, with `buf` stored at `p`. -/
def writeAt (bytes : List UInt8) (p : Nat) (buf : List UInt8) : List UInt8 :=
  overlay (bytes ++ List.replicate (p + buf.length - bytes.length) 0) p buf

/-- Frames for the whole file, and zeros behind its end. -/
structure FileOk (d : Image) (inode : Nat) (fs : List Nat) : Prop where
  chain : FrameChain d inode fs
  covers : size (d.read inode) ≤ 65024 * fs.length
  tail : ∀ q, size (d.read inode) ≤ q → q < 65024 * fs.length → byteAt d fs q = 0

variable {own own' : Owners} {s s' : State} {d d' : Image} {fs : List Nat} {inode : Nat}

theorem FileOk.holds (ok : FileOk d inode fs) :
    FileHolds d inode ((List.range (size (d.read inode))).map (byteAt d fs)) :=
  ⟨fs, ok.chain, ok.covers, rfl⟩

theorem FrameChain.holds_iff {bytes : List UInt8} (chain : FrameChain d inode fs) :
    FileHolds d inode bytes ↔ size (d.read inode) ≤ 65024 * fs.length ∧ bytes.length = size (d.read inode) ∧
      ∀ q < size (d.read inode), bytes.getD q 0 = byteAt d fs q := by
  constructor
  · rintro ⟨fs', chain', covers, rfl⟩
    obtain rfl := Chain.unique chain chain'
    refine ⟨covers, by rw [List.length_map, List.length_range], fun q hq => ?_⟩
    rw [List.getD_eq_getElem?_getD, List.getElem?_map, List.getElem?_range hq, Option.map_some, Option.getD_some]
  · rintro ⟨covers, length, same⟩
    refine ⟨fs, chain, covers, List.ext_getElem (by rw [length, List.length_map, List.length_range]) fun q low high => ?_⟩
    rw [← List.getD_eq_getElem _ 0 low, same q (by omega), List.getElem_map, List.getElem_range]

theorem FileHolds.covers {bytes : List UInt8} (holds : FileHolds d inode bytes) (chain : FrameChain d inode fs) :
    bytes.length ≤ 65024 * fs.length := by
  obtain ⟨covers, length, -⟩ := chain.holds_iff.mp holds
  rw [length]
  exact covers

theorem FileHolds.unique {a b : List UInt8} (h : FileHolds d inode a) (h' : FileHolds d inode b) : a = b := by
  obtain ⟨fs, chain, -, rfl⟩ := h
  obtain ⟨fs', chain', -, rfl⟩ := h'
  rw [Chain.unique chain chain']

theorem getElem?_writeAt (bytes : List UInt8) (p : Nat) (buf : List UInt8) (i : Nat) :
    (writeAt bytes p buf)[i]? = if p ≤ i ∧ i < p + buf.length then buf[i - p]? else
      if i < bytes.length then bytes[i]? else if i < p then some 0 else none := by
  have fits : p + buf.length ≤ (bytes ++ List.replicate (p + buf.length - bytes.length) 0).length := by
    rw [List.length_append, List.length_replicate]
    omega
  rw [writeAt, getElem?_overlay fits]
  split
  · rfl
  split
  · rename_i old
    rw [List.getElem?_append_left old]
  rw [List.getElem?_append_right (by omega), List.getElem?_replicate]
  split
  · rw [if_pos (by omega)]
  · rw [if_neg (by omega)]

theorem length_writeAt (bytes : List UInt8) (p : Nat) (buf : List UInt8) :
    (writeAt bytes p buf).length = max bytes.length (p + buf.length) := by
  rw [writeAt, length_overlay (by rw [List.length_append, List.length_replicate]; omega), List.length_append,
    List.length_replicate]
  omega

theorem getD_writeAt (bytes : List UInt8) (p : Nat) (buf : List UInt8) (i : Nat) :
    (writeAt bytes p buf).getD i 0 = if p ≤ i ∧ i < p + buf.length then buf.getD (i - p) 0 else bytes.getD i 0 := by
  rw [List.getD_eq_getElem?_getD, getElem?_writeAt]
  split
  · rw [List.getD_eq_getElem?_getD]
  rw [List.getD_eq_getElem?_getD]
  split
  · rfl
  rename_i past
  rw [List.getElem?_eq_none (by omega : bytes.length ≤ i)]
  split <;> rfl

theorem FileOk.stored {p : Nat} (buf : List UInt8) (ok : FileOk d inode fs) (chain : FrameChain d' inode fs)
    (grown : size (d'.read inode) = max (size (d.read inode)) (p + buf.length))
    (fits : p + buf.length ≤ 65024 * fs.length)
    (bytes : ∀ q < 65024 * fs.length, byteAt d' fs q = if p ≤ q ∧ q < p + buf.length then buf.getD (q - p) 0 else byteAt d fs q) :
    FileOk d' inode fs ∧
      FileHolds d' inode (writeAt ((List.range (size (d.read inode))).map (byteAt d fs)) p buf) := by
  have covers := ok.covers
  refine ⟨⟨chain, by omega, fun q low high => ?_⟩, fs, chain, by omega, ?_⟩
  · rw [bytes q high, if_neg (by omega)]
    exact ok.tail q (by omega) high
  · apply List.ext_getElem?
    intro i
    rw [getElem?_writeAt, List.length_map, List.length_range, grown, List.getElem?_map, List.getElem?_map]
    by_cases inside : i < max (size (d.read inode)) (p + buf.length)
    · rw [List.getElem?_range inside, Option.map_some, bytes i (by omega)]
      by_cases new : p ≤ i ∧ i < p + buf.length
      · rw [if_pos new, if_pos new, List.getD_eq_getElem?_getD, List.getElem?_eq_getElem (by omega), Option.getD_some]
      rw [if_neg new, if_neg new]
      by_cases old : i < size (d.read inode)
      · rw [if_pos old, List.getElem?_range old, Option.map_some]
      · rw [if_neg old, if_pos (by omega), ok.tail i (by omega) (by omega)]
    · have past : (List.range (max (size (d.read inode)) (p + buf.length)))[i]? = none :=
        List.getElem?_eq_none (by rw [List.length_range]; omega)
      rw [past, Option.map_none, if_neg (by omega), if_neg (by omega), if_neg (by omega)]

/-! ### Entries -/

theorem entryAt_mem {k : Nat} (inside : k < 127 * fs.length) :
    ∃ f ∈ fs, ∀ d : Image, entryAt d fs k = content (d.read f) (k % 127) := by
  have index : k / 127 < fs.length := by omega
  refine ⟨fs[k / 127], List.getElem_mem index, fun d => ?_⟩
  rw [entryAt, List.getD_eq_getElem?_getD, List.getElem?_eq_getElem index, Option.getD_some]

theorem entryAt_owned {k : Nat} (sound : Sound own d) (roles : ∀ f ∈ fs, Owners.role own f = some .frame)
    (inside : k < 127 * fs.length) (named : entryAt d fs k ≠ 0) :
    ∃ f ∈ fs, own (entryAt d fs k) = some (.content f (k % 127)) := by
  obtain ⟨f, member, entry⟩ := entryAt_mem inside
  rw [entry] at named ⊢
  exact ⟨f, member, sound.content_owned (roles f member) (Nat.mod_lt _ (by decide)) named⟩

theorem entryAt_inj {i k : Nat} (sound : Sound own d) (roles : ∀ f ∈ fs, Owners.role own f = some .frame)
    (nodup : fs.Nodup) (hi : i < 127 * fs.length) (hk : k < 127 * fs.length) (named : entryAt d fs i ≠ 0)
    (same : entryAt d fs i = entryAt d fs k) : i = k := by
  have index : i / 127 < fs.length := by omega
  have index' : k / 127 < fs.length := by omega
  have shape : ∀ j (h : j / 127 < fs.length), entryAt d fs j = content (d.read fs[j / 127]) (j % 127) := fun j h => by
    rw [entryAt, List.getD_eq_getElem?_getD, List.getElem?_eq_getElem h, Option.getD_some]
  have owned := fun j (h : j / 127 < fs.length) => @Sound.content_owned own d sound fs[j / 127] (j % 127)
    (roles _ (List.getElem_mem h)) (Nat.mod_lt _ (by decide))
  rw [shape i index] at named
  rw [shape i index, shape k index'] at same
  have first := owned i index named
  rw [same, owned k index' (same ▸ named)] at first
  simp only [Option.some.injEq, Loc.content.injEq] at first
  have frames := (List.Nodup.getElem_inj_iff nodup).mp first.1
  omega

/-! ### Changes -/

theorem Attached.byteAt (attached : Attached fs own s own' s') (sound : Sound own s.disk)
    (roles : ∀ f ∈ fs, Owners.role own f = some .frame) {q : Nat} (inside : q < 65024 * fs.length) :
    byteAt s'.disk fs q = byteAt s.disk fs q := by
  obtain ⟨f, member, entry⟩ := @entryAt_mem fs (q / 512) (by omega)
  have hj : q / 512 % 127 < SFS_FRAME_COUNT := Nat.mod_lt _ (by decide)
  unfold Sfs.byteAt
  dsimp only
  rw [entry, entry]
  by_cases named : content (s'.disk.read f) (q / 512 % 127) = 0
  · have before : content (s.disk.read f) (q / 512 % 127) = 0 := by
      rcases attached.entry f member (q / 512 % 127) with same | ⟨hole, -⟩
      · rw [← same, named]
      · exact hole
    rw [if_pos named, if_pos before]
  rw [if_neg named]
  rcases attached.entry f member (q / 512 % 127) with same | ⟨hole, new⟩
  · rw [same] at named ⊢
    have owned := sound.content_owned (roles f member) hj named
    have apart : content (s.disk.read f) (q / 512 % 127) ∉ fs := fun m => by
      have role := roles _ m
      rw [role_of_own owned] at role
      exact Kind.noConfusion (Option.some.inj role)
    rw [if_neg named, attached.grows.kept (by rw [owned]; simp) apart]
  · have owned := attached.sound.content_owned (attached.grows.role (roles f member)) hj named
    rw [if_pos hole, (attached.fresh _ new (by rw [owned]; simp)).1]
    exact Bytes.get_zero _

theorem byteAt_congr (frames : ∀ f ∈ fs, d'.read f = d.read f)
    (blocks : ∀ k < 127 * fs.length, entryAt d fs k ≠ 0 → d'.read (entryAt d fs k) = d.read (entryAt d fs k)) {q : Nat}
    (inside : q < 65024 * fs.length) : byteAt d' fs q = byteAt d fs q := by
  obtain ⟨f, member, entry⟩ := @entryAt_mem fs (q / 512) (by omega)
  have same : entryAt d' fs (q / 512) = entryAt d fs (q / 512) := by rw [entry, entry, frames f member]
  unfold byteAt
  dsimp only
  rw [same]
  split
  · rfl
  · rename_i named
    rw [blocks _ (by omega) named]

/-- New frames stand for zeros, and the first frame keeps its bytes. -/
theorem Linked.byteAt {f : Nat} {news : List Nat} (linked : Linked f news own s own' s') (rest : List Nat) (sound : Sound own s.disk)
    (role : Owners.role own f = some .frame) {q : Nat} (inside : q < 65024 * (f :: news).length) :
    byteAt s'.disk (f :: news) q = if q < 65024 then byteAt s.disk (f :: rest) q else 0 := by
  unfold Sfs.byteAt
  dsimp only
  by_cases first : q < 65024
  · rw [if_pos first, entryAt_head (by omega), entryAt_head (by omega), linked.entry]
    by_cases named : content (s.disk.read f) (q / 512) = 0
    · rw [if_pos named, if_pos named]
    · have owned := sound.content_owned role (by unfold SFS_FRAME_COUNT; omega) named
      rw [linked.grows.kept (by rw [owned]; simp) fun same => ?_]
      rw [same] at owned
      rw [role_of_own owned] at role
      cases role
  · obtain ⟨k, place⟩ := Nat.exists_eq_add_of_le (show 127 ≤ q / 512 by omega)
    rw [List.length_cons] at inside
    obtain ⟨g, member, entry⟩ := @entryAt_mem news k (by omega)
    have hj : k % 127 < SFS_FRAME_COUNT := Nat.mod_lt _ (by decide)
    obtain ⟨named, new⟩ := linked.full g member _ hj
    have owned := linked.sound.content_owned (linked.roles g member) hj named
    rw [if_neg first, place, entryAt_tail, entry, if_neg named, linked.zero _ new (role_of_own owned)]
    exact Bytes.get_zero _

theorem Linked.entryAt_ne_zero {f : Nat} {news : List Nat} (linked : Linked f news own s own' s') {k : Nat} (low : 127 ≤ k)
    (high : k < 127 * (f :: news).length) : entryAt s'.disk (f :: news) k ≠ 0 := by
  obtain ⟨k, rfl⟩ := Nat.exists_eq_add_of_le low
  rw [List.length_cons] at high
  obtain ⟨g, member, entry⟩ := @entryAt_mem news k (by omega)
  rw [entryAt_tail, entry]
  exact (linked.full g member _ (Nat.mod_lt _ (by decide))).1

theorem byteAt_write {k : Nat} (sound : Sound own d) (roles : ∀ f ∈ fs, Owners.role own f = some .frame) (nodup : fs.Nodup)
    (hk : k < 127 * fs.length) (named : entryAt d fs k ≠ 0) (v : Block) {q : Nat} (inside : q < 65024 * fs.length) :
    byteAt (d.write (entryAt d fs k) v) fs q = if q / 512 = k then v.get (q % 512) else byteAt d fs q := by
  obtain ⟨g, _, holder⟩ := entryAt_owned sound roles hk named
  have small := sound.role_lt (role_of_own holder)
  have keep : ∀ b, own b ≠ none → b ≠ entryAt d fs k → (d.write (entryAt d fs k) v).read b = d.read b := fun b used other =>
    Image.read_write_of_ne _ _ (by have := sound.lt used; omega)
  have frames : ∀ f ∈ fs, (d.write (entryAt d fs k) v).read f = d.read f := fun f m => by
    apply keep f (owned_of_role (roles f m))
    intro same
    have role := roles f m
    rw [same, role_of_own holder] at role
    exact Kind.noConfusion (Option.some.inj role)
  obtain ⟨f, member, entry⟩ := @entryAt_mem fs (q / 512) (by omega)
  have same : entryAt (d.write (entryAt d fs k) v) fs (q / 512) = entryAt d fs (q / 512) := by
    rw [entry, entry, frames f member]
  by_cases here : q / 512 = k
  · unfold byteAt
    dsimp only
    rw [same, here, if_neg named, if_pos rfl, Image.read_write]
  · unfold byteAt
    dsimp only
    rw [same, if_neg here]
    split
    · rfl
    · rename_i used
      obtain ⟨f', -, holder'⟩ := @entryAt_owned own d fs (q / 512) sound roles (by omega) used
      rw [keep _ (by rw [holder']; simp) fun both => here (entryAt_inj sound roles nodup (by omega) hk used both)]

end StorageStack.Sfs
