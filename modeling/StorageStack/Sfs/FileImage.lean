import StorageStack.Sfs.Copies
import StorageStack.Sfs.Namespace
import StorageStack.Sfs.ReadStops

/-!
# What an inode stands for

A file with one frame is known by its bytes and by which of its blocks are attached. A new file is empty and
has its first block; a write stores what its copies leave of the buffer and attaches the blocks it meets; a
read from attached blocks changes the cursor alone.
-/

namespace StorageStack.Sfs
open Lib CString

/-- The bytes of a file, and the entries of its frame that have a block. -/
structure FileRef where
  bytes : List UInt8
  held : Nat → Bool

namespace FileRef

def empty : FileRef := ⟨[], fun k => k == 0⟩

/-- `n` bytes are stored at `p`, and the blocks that they meet are attached. -/
def write (file : FileRef) (p n : Nat) (buf : List UInt8) : FileRef :=
  ⟨writeAt file.bytes p (taken buf (copies p n)), fun k => file.held k || (p / 512 ≤ k && k ≤ (p + n) / 512)⟩

/-- What reading `n` bytes from `p` on leaves of the buffer. Behind the end of the file there are zeros. -/
def read (file : FileRef) (p n : Nat) (buf : List UInt8) : List UInt8 :=
  landed (fun q => file.bytes.getD q 0) (copies p n) buf

/-- The entries of a range that have no block. -/
def holes (file : FileRef) (p n : Nat) : Nat := ((logicalBlocks p n).filter fun k => !file.held k).length

/-- The inode, the frame and the blocks. -/
def blocks (file : FileRef) : Nat := 2 + ((List.range SFS_FRAME_COUNT).filter file.held).length

end FileRef

/-- The inode block has the file in it. -/
def Stands (d : Image) (inode : Nat) (file : FileRef) : Prop :=
  ∃ f, FileOk d inode [f] ∧ file.bytes = (List.range (size (d.read inode))).map (byteAt d [f]) ∧
    ∀ k < SFS_FRAME_COUNT, file.held k = true ↔ content (d.read f) k ≠ 0

variable {own own' : Owners} {s s' : State} {d : Image} {fd : Int} {slot : Fin 32} {inode f p n : Nat} {file : FileRef}
  {buf : List UInt8}

theorem Stands.length_eq (stands : Stands d inode file) : file.bytes.length = size (d.read inode) := by
  obtain ⟨f, -, bytes, -⟩ := stands
  rw [bytes, List.length_map, List.length_range]

/-- A file is in its own blocks. -/
theorem Stands.congr (stands : Stands s.disk inode file) (sound : Sound own s.disk) (role : Owners.role own inode = some .inode)
    (same : ∀ b, b = inode ∨ InFile own inode b → d.read b = s.disk.read b) : Stands d inode file := by
  obtain ⟨f, ok, bytes, held⟩ := stands
  have members := ok.chain.mem sound role
  have roles : ∀ g ∈ [f], Owners.role own g = some .frame := fun g m => (members g m).1
  have frames : ∀ g ∈ [f], d.read g = s.disk.read g := fun g m => same g (.inr (members g m).2)
  have first := same inode (.inl rfl)
  have stays : ∀ {q}, q < 65024 * [f].length → byteAt d [f] q = byteAt s.disk [f] q := fun inside =>
    byteAt_congr frames (fun k hk named => by
      obtain ⟨g, m, owned⟩ := entryAt_owned sound roles hk named
      exact same _ (.inr (.content owned (members g m).2))) inside
  refine ⟨f, ⟨?_, by rw [first]; exact ok.covers, fun q low high => ?_⟩, ?_, fun k hk => ?_⟩
  · rw [FrameChain, first]
    exact Chain.congr ok.chain fun g m => by rw [frameNext, frameNext, frames g m]
  · rw [stays high]
    exact ok.tail q (by rw [← first]; exact low) high
  · rw [bytes, first]
    refine List.map_congr_left fun q m => (stays ?_).symm
    exact Nat.lt_of_lt_of_le (List.mem_range.mp m) ok.covers
  · rw [frames f (List.mem_singleton_self f)]
    exact held k hk

/-! ### A new file -/

theorem createFile_stands {dirBid : Nat} {dir inode v : Block} {freeInode : Int} {name : CString} {i : Nat} (h : Healthy own s)
    (used : own dirBid ≠ none) (run : createFile s dirBid dir freeInode inode name = .ok (i, v, s')) :
    Stands s'.disk i .empty := by
  obtain ⟨f, c, new⟩ := createFile_inv h used run
  obtain ⟨hf, fClear⟩ := new.clear f (by simp)
  obtain ⟨hc, cClear⟩ := new.clear c (by simp)
  have cZero := h.sound.clear_ne_zero cClear
  have first : firstFrame (s'.disk.read i) = f := by rw [new.inode, new.first]
  have size' : size (s'.disk.read i) = 0 := by rw [new.inode, new.size]
  have entry : ∀ k, content (s'.disk.read f) k = if k = 0 then c else 0 := by
    intro k
    rw [new.frame]
    by_cases here : k = 0
    · rw [if_pos here, here, content_setContent (by decide) (by omega), if_pos rfl]
    · rw [if_neg here, content_setContent_of_ne here]
      exact Bytes.word_zero _
  refine ⟨f, ⟨⟨first.symm, h.sound.clear_ne_zero fClear, ?_⟩, by rw [size']; exact Nat.zero_le _, fun q _ high => ?_⟩,
    by rw [size']; rfl, fun k _ => ?_⟩
  · show frameNext _ f = 0
    rw [frameNext, new.frame, nextFrame_setContent]
    exact Bytes.word_zero 0
  · rw [List.length_singleton] at high
    unfold byteAt
    dsimp only
    rw [entryAt_head (by omega), entry]
    by_cases head : q / 512 = 0
    · rw [if_pos head, if_neg cZero, new.block]
      exact Bytes.get_zero _
    · rw [if_neg head, if_pos rfl]
  · rw [entry]
    show (k == 0) = true ↔ _
    by_cases here : k = 0
    · simp [here, cZero]
    · simp [here]

/-! ### Ranges in the first frame -/

/-- The range ends in the first frame, and the array of ids has room for the blocks it meets. -/
def InFrame (p n : Nat) : Prop := p % 512 + n % 512 < 512 ∧ p + n < 127 * 512

instance (p n : Nat) : Decidable (InFrame p n) := inferInstanceAs (Decidable (_ ∧ _))

theorem InFrame.count (h : InFrame p n) : numBlocks p (toU32 (n : Int)) = n / 512 + 1 := by
  obtain ⟨array, position⟩ := h
  rw [numBlocks_eq (by omega) (by omega), Int.toNat_natCast]
  omega

theorem InFrame.blocks (h : InFrame p n) : (p + n) / 512 - p / 512 + 1 = n / 512 + 1 ∧ p / 512 + (n / 512 + 1) ≤ 127 := by
  obtain ⟨array, position⟩ := h
  omega

theorem InFrame.ids (_ : InFrame p n) : (numBids (n : Int)).toNat = n / 512 + 1 := numBids_nonneg (by omega)

/-! ### Writing -/

/-- Collecting the blocks of a range fills its holes and no other entry. -/
theorem collect_frame (cap : Nat) (ready : Ready own s slot inode [f]) (range : InFrame p n)
    (free : holesAt s.disk [f] (p / 512) (n / 512 + 1) ≤ (s.disk.read 1).clearCount) (room : n / 512 + 1 ≤ cap) :
    ∃ own' s', sfsGetFileContent cap s slot p (toU32 (n : Int)) =
        .ok ((List.range' (p / 512) (n / 512 + 1)).map (entryAt s'.disk [f]), s') ∧ Attached [f] own s own' s' ∧
      ∀ k < 127, entryAt s'.disk [f] k ≠ 0 ↔ entryAt s.disk [f] k ≠ 0 ∨ (p / 512 ≤ k ∧ k ≤ (p + n) / 512) := by
  obtain ⟨array, position⟩ := id range
  have start : p / 512 % 127 = p / 512 := Nat.mod_eq_of_lt (by omega)
  obtain ⟨blocks, last⟩ := range.blocks
  obtain ⟨own', s', run, attached, named, outside, -⟩ := sfsGetFileContent_ok cap slot p (toU32 (n : Int)) ready.sound ready.loaded
    ready.entry ready.role ready.chain
    (by rw [range.count, start, List.length_singleton]; omega) (by rw [range.count, start]; exact free)
    (by rw [range.count]; exact room)
  rw [range.count, start] at run named outside
  refine ⟨own', s', run, attached, fun k hk => ?_⟩
  by_cases inside : p / 512 ≤ k ∧ k ≤ (p + n) / 512
  · simp only [inside, and_self, or_true, iff_true]
    exact named k inside.1 (by omega)
  · rw [outside k (by rw [List.length_singleton]; omega) (by omega)]
    simp only [inside, or_false]

theorem holesAt_frame (range : InFrame p n) (held : ∀ k < SFS_FRAME_COUNT, file.held k = true ↔ content (d.read f) k ≠ 0) :
    holesAt d [f] (p / 512) (n / 512 + 1) = file.holes p n := by
  obtain ⟨blocks, last⟩ := range.blocks
  rw [holesAt, FileRef.holes, logicalBlocks, blocks]
  congr 1
  apply List.filter_congr
  intro k member
  have high := (List.mem_range'_1.mp member).2
  rw [entryAt_head (by omega), ← Bool.not_eq_eq_eq_not, Bool.eq_iff_iff, held k (by unfold SFS_FRAME_COUNT; omega)]
  simp

/-- A write within the first frame. -/
theorem write_copies (index : fdIndex fd = .ok slot) (ready : Ready own s slot inode [f])
    (cursor : (s.fdtable slot).cur = p) (range : InFrame p n) (source : n ≤ buf.length)
    (free : holesAt s.disk [f] (p / 512) (n / 512 + 1) ≤ (s.disk.read 1).clearCount) :
    ∃ own' s', sfsWrite s fd buf n = .ok ((n : Int), s') ∧ Ready own' s' slot inode [f] ∧
      size (s'.disk.read inode) = max (size (s.disk.read inode)) (p + n) ∧
      (∀ q < 65024 * [f].length, byteAt s'.disk [f] q =
        if p ≤ q ∧ q < p + n then (taken buf (copies p n)).getD (q - p) 0 else byteAt s.disk [f] q) ∧
      ∀ k < 127, entryAt s'.disk [f] k ≠ 0 ↔ entryAt s.disk [f] k ≠ 0 ∨ (p / 512 ≤ k ∧ k ≤ (p + n) / 512) := by
  have bids := range.ids
  obtain ⟨array, position⟩ := id range
  obtain ⟨blocks, last⟩ := range.blocks
  obtain ⟨t, resize, entry, -⟩ := @resizeStage_small s inode slot p n ready.entry cursor (by omega)
  obtain ⟨ready₁, keep⟩ := ready.resized (p := p) (n := n) (t := t) entry
  have small := ready.sound.role_lt ready.role
  have notMap := ready.sound.role_ne_one ready.role
  have apart : ∀ {b kind}, Owners.role own b = some kind → kind ≠ .inode → b ≠ inode := by
    rintro b kind role other rfl
    exact other (Option.some.inj (role.symm.trans ready.role))
  have frame₁ : ∀ g ∈ [f], (resized s inode p n).read g = s.disk.read g := fun g m =>
    keep g (owned_of_role (ready.roles g m)) (apart (ready.roles g m) (by decide))
  have zero₁ : (resized s inode p n).read 0 = s.disk.read 0 :=
    keep 0 (by simp [ready.sound.boot]) (apart ready.sound.role_zero (by decide))
  have entries₁ : ∀ k, entryAt (resized s inode p n) [f] k = entryAt s.disk [f] k := entryAt_congr frame₁ zero₁
  have map₁ : (resized s inode p n).read 1 = s.disk.read 1 := Image.read_write_of_ne _ _ (by omega)
  obtain ⟨own₂, s₂, collect, attached, filled⟩ := collect_frame (numBids (n : Int)).toNat ready₁ range
    (by
      dsimp only
      rw [map₁, holesAt_congr frame₁ (by rw [List.length_singleton]; omega)]
      exact free) (by omega)
  obtain ⟨ready₂, inode₂⟩ := ready₁.attached attached
  obtain ⟨d, run, ready₃, kept, bytes⟩ := writeLoop_copies (n / 512 + 1) (p / 512) (p % 512) ready₂
    source (.inr ⟨rfl, rfl⟩) (.inr (by omega)) (by omega) (by rw [List.length_singleton]; omega) fun k low high =>
      (filled k (by omega)).mpr (.inr ⟨low, by omega⟩)
  have table : s₂.fdtable = t := attached.grows.fdtable
  have after : Ready own₂ { s₂.setFd slot { s₂.fdtable slot with cur := p + n } with disk := d } slot inode [f] := by
    refine ⟨ready₃.sound, ready₃.loaded, ready₃.super, ready₃.role, ?_, ready₃.chain, ready₃.framed⟩
    show ((s₂.setFd slot _).fdtable slot).inodeBid = inode
    rw [setFd_self, table]
    exact entry
  refine ⟨own₂, _, ?_, after, ?_, fun q hq => ?_, fun k hk => ?_⟩
  · rw [sfsWrite, if_pos (by omega), sfsWriteWith, index, ok_bind]
    dsimp only
    rw [resize, ok_bind, cursor, collect, ok_bind]
    dsimp only
    rw [Int.toNat_natCast, run, ok_bind]
  · have word : size (s.disk.read inode) < 4294967296 := Bytes.word_lt _ _
    dsimp only
    rw [kept inode (notData ready₂.role (by decide)) (owned_of_role ready₂.role), inode₂, resized, Image.read_write,
      size_setSize (by omega)]
  · have before : byteAt s₂.disk [f] q = byteAt s.disk [f] q := by
      rw [attached.byteAt ready₁.sound ready₁.roles hq]
      refine byteAt_congr frame₁ (fun k hk some => ?_) hq
      obtain ⟨g, -, owned⟩ := entryAt_owned ready.sound ready.roles hk some
      exact keep _ (by rw [owned]; simp) (apart (role_of_own owned) (by show Kind.data ≠ .inode; decide))
    rw [copies, blocks, ← before]
    exact bytes q hq
  · have same : entryAt d [f] k = entryAt s₂.disk [f] k := entryAt_congr
      (fun g m => kept g (notData (ready₂.roles g m) (by decide)) (owned_of_role (ready₂.roles g m)))
      (kept 0 (notData ready₂.sound.role_zero (by decide)) (by simp [ready₂.sound.boot])) k
    dsimp only
    rw [same, filled k hk]
    dsimp only
    rw [entries₁]

/-- What a write leaves of the file, and what it takes from the free blocks. -/
theorem write_stands {entry : Fd} (healthy : Healthy own s) (index : fdIndex fd = .ok slot) (here : s.fdtable slot = entry)
    (role : Owners.role own entry.inodeBid = some .inode) (stands : Stands s.disk entry.inodeBid file)
    (range : InFrame entry.cur n) (source : n ≤ buf.length) (free : file.holes entry.cur n ≤ (s.disk.read 1).clearCount) :
    ∃ fs s', WriteRoom (numBids (n : Int)).toNat s entry n fs ∧ sfsWrite s fd buf n = .ok ((n : Int), s') ∧
      Stands s'.disk entry.inodeBid (file.write entry.cur n buf) := by
  obtain ⟨f, ok, bytes, held⟩ := stands
  have ready := healthy.ready here role ok
  have bids := range.ids
  have count := range.count
  obtain ⟨array, position⟩ := id range
  obtain ⟨blocks, last⟩ := range.blocks
  have start : entry.cur / 512 % 127 = entry.cur / 512 := Nat.mod_eq_of_lt (by omega)
  have none := @missingFrames_small s entry n (by omega)
  rw [← holesAt_frame range held] at free
  have room : WriteRoom (numBids (n : Int)).toNat s entry n [f] := by
    refine ⟨ok.chain, .inr ?_, ?_, by omega, by omega⟩
    · rw [count, none, framesAfter, if_pos rfl, List.length_singleton, start]
      omega
    · rw [blocksNeeded, none, if_pos rfl, Nat.mul_zero, Nat.zero_add, count, start]
      exact free
  obtain ⟨own', s', run, ready', grown, stored, filled⟩ := write_copies index ready (by rw [here]) range source free
  have length : (taken buf (copies entry.cur n)).length = n := length_taken source (.inr (by omega))
  obtain ⟨ok', fs', chain', -, bytes'⟩ := ok.stored (taken buf (copies entry.cur n)) ready'.chain (by rw [length]; exact grown)
    (by rw [length, List.length_singleton]; omega) (by rw [length]; exact stored)
  obtain rfl := Chain.unique ok'.chain chain'
  refine ⟨[f], s', room, run, f, ok', ?_, fun k hk => ?_⟩
  · rw [FileRef.write, bytes]
    exact bytes'
  · have entry' := filled k hk
    rw [entryAt_head hk, entryAt_head hk, ← held k hk] at entry'
    rw [entry', FileRef.write]
    simp only [Bool.or_eq_true, Bool.and_eq_true, decide_eq_true_eq]

/-! ### Reading -/

/-- A read from attached blocks leaves its copies in the buffer, and moves the cursor behind them. -/
theorem read_stands {entry : Fd} (healthy : Healthy own s) (index : fdIndex fd = .ok slot) (here : s.fdtable slot = entry)
    (role : Owners.role own entry.inodeBid = some .inode) (stands : Stands s.disk entry.inodeBid file)
    (range : InFrame entry.cur n) (named : file.holes entry.cur n = 0) (room : n ≤ buf.length) :
    sfsRead s fd buf n = .ok ((n : Int), file.read entry.cur n buf, s.setFd slot { entry with cur := entry.cur + n }) := by
  obtain ⟨f, ok, bytes, held⟩ := stands
  have ready := healthy.ready here role ok
  have bids := range.ids
  obtain ⟨array, position⟩ := id range
  obtain ⟨blocks, last⟩ := range.blocks
  have first : f = firstFrame (s.disk.read entry.inodeBid) := ok.chain.1
  have start : entry.cur / 512 % SFS_FRAME_COUNT = entry.cur / 512 := Nat.mod_eq_of_lt (by unfold SFS_FRAME_COUNT; omega)
  have attached : ∀ k, entry.cur / 512 ≤ k → k < entry.cur / 512 + (n / 512 + 1) → entryAt s.disk [f] k ≠ 0 := by
    intro k low high
    rw [entryAt_head (by omega)]
    apply (held k (by unfold SFS_FRAME_COUNT; omega)).mp
    have member : k ∈ logicalBlocks entry.cur n := List.mem_range'_1.mpr ⟨low, by omega⟩
    simpa using List.filter_eq_nil_iff.mp (List.length_eq_zero_iff.mp named) k member
  have counted := @countBlocks_ok [f] s.disk (n / 512 + 1) (n / 512 + 1 + 2) _ (entry.cur / 512) 0
    ((entry.cur / 65024 : Nat) - (toU32 ((entry.cur : Int) + (n : Int)) / 65024 : Nat) + 1) ok.chain (by omega) (Nat.zero_le _)
    (by rw [List.length_singleton]; omega) attached (by omega)
  have walked : ∀ k, k < 127 → scanEntry s.disk f k = entryAt s.disk [f] k := fun k hk => by
    rw [scanEntry_head _ _ hk, entryAt_head hk]
  have collect := @frameLoop_idle s f (n / 512 + 1) (n / 512 + 1 + 1) (n / 512 + 1) (entry.cur / 512) [] (by omega)
    (fun k low high => by
      rw [walked k (by omega)]
      exact attached k low high) (by omega) (by simp)
  rw [List.nil_append, List.map_congr_left fun k m => walked k (by have := List.mem_range'_1.mp m; omega)] at collect
  have copied := readLoop_copies (n / 512 + 1) (entry.cur / 512) (entry.cur % 512) room (.inr ⟨rfl, rfl⟩) (.inr (by omega))
    (by omega) attached
  rw [sfsRead, index, ok_bind]
  dsimp only
  rw [if_pos (by omega), bids, here, counted, ok_bind, if_neg (Nat.lt_irrefl _), sfsGetFileContent, here, range.count, start,
    ← first, collect, ok_bind]
  dsimp only
  rw [Int.toNat_natCast, copied, ok_bind, here]
  have same : landed (byteAt s.disk [f]) (copiesFrom (n / 512 + 1) entry.cur n) buf = file.read entry.cur n buf := by
    rw [FileRef.read, copies, blocks]
    refine landed_congr fun q _ high => ?_
    rw [List.getD_eq_getElem?_getD, bytes, List.getElem?_map]
    by_cases old : q < size (s.disk.read entry.inodeBid)
    · rw [List.getElem?_range old]
      rfl
    · rw [List.getElem?_eq_none (by rw [List.length_range]; omega), ok.tail _ (by omega) (by rw [List.length_singleton]; omega)]
      rfl
  rw [same]
  dsimp only
  by_cases some : (0 : Int) < n
  · rw [if_pos some]
  · rw [if_neg some, show (n : Int) = 0 by omega]

end StorageStack.Sfs
