import StorageStack.Sfs.ReadOnly
import StorageStack.Sfs.ReadStops
import StorageStack.Sfs.Resize

/-!
# Writing and reading back

`sfs_write` copies every block from the front of the buffer and `sfs_read` copies every block to the front of
it, with `strncpy`. A transfer is right when it takes one copy and the buffer has nothing behind a zero; a
longer one reads nothing back at its last position, and one whose array of ids is too short does not return.
Behind the first frame both take their blocks from the first one, so there the file must have the bytes already.
-/

namespace StorageStack.Sfs
open Lib CString

/-- One copy, and no more blocks than the array of ids has room for. -/
def OneBlock (p n : Nat) : Prop := p % 512 + n ≤ 512 ∧ p % 512 + n % 512 < 512

instance (p n : Nat) : Decidable (OneBlock p n) := inferInstanceAs (Decidable (_ ∧ _))

variable {own own' : Owners} {s s' : State} {d : Image} {fs : List Nat} {inode : Nat} {slot : Fin 32} {p n : Nat}

theorem OneBlock.count (one : OneBlock p n) (fit : p + n < 4294967296) : numBlocks p (toU32 (n : Int)) = n / 512 + 1 := by
  have bound := one.1
  have array := one.2
  rw [numBlocks_eq (by omega) (by omega), Int.toNat_natCast]
  omega

/-- A transfer takes its blocks from the first frame, and a whole block at its end one entry more. -/
theorem OneBlock.inside (one : OneBlock p n) (framed : fs ≠ []) : p / 512 % 127 + (n / 512 + 1) ≤ 127 * fs.length ∨
    (p / 512 % 127 = 126 ∧ n = 512 ∧ ∃ f, fs = [f]) := by
  have some : 1 ≤ fs.length := List.length_pos_iff.mpr framed
  have bound := one.1
  by_cases edge : p / 512 % 127 = 126 ∧ n = 512 ∧ fs.length = 1
  · exact .inr ⟨edge.1, edge.2.1, List.length_eq_one_iff.mp edge.2.2⟩
  · left
    omega

/-! ### Collecting -/

/-- Behind a last frame the walk visits block 0, whose entry 0 is the number of blocks. -/
theorem collect_edge {cap f : Nat} (ready : Ready own s slot inode [f])
    (free : holesAt s.disk [f] 126 2 ≤ (s.disk.read 1).clearCount) (room : 2 ≤ cap) :
    ∃ own' s' ids, frameLoop cap 3 2 126 f [] s = .ok (entryAt s'.disk [f] 126 :: ids, s') ∧ Attached [f] own s own' s' ∧
      (∀ k, 126 ≤ k → k < 128 → entryAt s'.disk [f] k ≠ 0) ∧
      ∀ k < 127, ¬ (126 ≤ k ∧ k < 128) → entryAt s'.disk [f] k = entryAt s.disk [f] k := by
  obtain ⟨-, named, ends⟩ := ready.chain
  have role := ready.roles f (List.mem_singleton_self f)
  have visits : visit 2 126 = 1 := rfl
  have few : holes (s.disk.read f) 126 1 ≤ (s.disk.read 1).clearCount := by
    rw [holesAt_cons (by decide), visits] at free
    omega
  obtain ⟨own', s', frame, run, attached, next, filled, kept, -⟩ := @frameRound_ok own s cap 2 126 f [] ready.sound ready.loaded
    role few (by simpa using room)
  have zero : (s'.disk.write f frame).read 0 = s.disk.read 0 := attached.grows.kept (by simp [ready.sound.boot]) (by
    simpa using named.symm)
  have head : entryAt (s'.disk.write f frame) [f] 126 = content frame 126 := by
    rw [entryAt_head (by decide), Image.read_write]
  have super : content ((s'.disk.write f frame).read 0) 0 ≠ 0 := by
    rw [zero]
    exact ready.super
  refine ⟨own', { s' with disk := s'.disk.write f frame }, [content ((s'.disk.write f frame).read 0) 0], ?_, attached,
    fun k low high => ?_, fun k hk outside => ?_⟩
  · rw [frameLoop, if_neg (by decide), run, ok_bind]
    dsimp only
    rw [visits, next, show nextFrame (s.disk.read f) = 0 from ends, frameLoop, if_neg (by decide)]
    dsimp only
    rw [contentLoop, if_pos (by decide), fillEntry, if_neg super, ok_bind]
    dsimp only
    have store : ([] ++ List.map (content frame) (List.range' 126 1)).length < cap := room
    rw [if_pos store, contentLoop, ok_bind]
    dsimp only
    rw [Image.write_read, frameLoop, if_pos rfl, head]
    rfl
  · by_cases first : k = 126
    · rw [first, head]
      exact filled 126 (Nat.le_refl _) (by decide)
    · obtain rfl : k = 127 := by omega
      exact super
  · rw [entryAt_head hk, entryAt_head hk, Image.read_write]
    exact kept k (by rw [visits]; omega)

/-- The first id is that of the block the position falls into, counted from the front of its frame, in the first one. -/
theorem collect_one (cap : Nat) (ready : Ready own s slot inode fs) (one : OneBlock p n) (fit : p + n < 4294967296)
    (free : holesAt s.disk fs (p / 512 % 127) (n / 512 + 1) ≤ (s.disk.read 1).clearCount) (room : n / 512 + 1 ≤ cap) :
    ∃ own' s' ids, sfsGetFileContent cap s slot p (toU32 (n : Int)) = .ok (entryAt s'.disk fs (p / 512 % 127) :: ids, s') ∧
      Attached fs own s own' s' ∧
      (∀ k, p / 512 % 127 ≤ k → k < p / 512 % 127 + (n / 512 + 1) → entryAt s'.disk fs k ≠ 0) ∧
      ∀ k < 127 * fs.length, ¬ (p / 512 % 127 ≤ k ∧ k < p / 512 % 127 + (n / 512 + 1)) →
        entryAt s'.disk fs k = entryAt s.disk fs k := by
  have count := one.count fit
  rcases one.inside ready.framed with inside | ⟨last, rfl, f, rfl⟩
  · obtain ⟨own', s', run, attached, named, kept, -⟩ := sfsGetFileContent_ok cap slot p
      (toU32 (n : Int)) ready.sound ready.loaded ready.entry ready.role ready.chain
      (by rw [count]; exact .inr inside) (by rw [count]; exact free) (by omega)
    rw [count] at run named kept
    refine ⟨own', s', (List.range' (p / 512 % 127 + 1) (n / 512)).map (entryAt s'.disk fs), ?_, attached, named, kept⟩
    rw [run, List.range'_succ, List.map_cons]
  · obtain ⟨first, -, -⟩ := ready.chain
    rw [last] at free ⊢
    obtain ⟨own', s', ids, run, attached, named, kept⟩ := collect_edge ready free room
    refine ⟨own', s', ids, ?_, attached, named, kept⟩
    rw [sfsGetFileContent, ready.entry, count, ← first]
    show frameLoop cap 3 2 (p / 512 % 127) f [] s = _
    rw [last]
    exact run

/-! ### Writing -/

theorem writeLoop_one {buf : List UInt8} {b : Nat} {ids : List Nat} (one : p % 512 + buf.length ≤ 512)
    (fit : p + buf.length < 4294967296) :
    writeLoop buf (b :: ids) buf.length (p % 512) p d =
      .ok (p + buf.length, d.write b ((d.read b).patch (p % 512) (padded buf))) := by
  cases buf with
  | nil =>
    have none : padded ([] : List UInt8) = [] := rfl
    rw [none, Bytes.patch_nil, Image.write_read]
    rfl
  | cons c buf =>
    have once : toCopy (p % 512) ((c :: buf).length) = (c :: buf).length := by
      rcases @toCopy_cases (p % 512) (c :: buf).length (Nat.mod_lt _ (by decide)) with h | h | h <;> omega
    have wrap : toU32 ((p : Int) + ((c :: buf).length : Nat)) = p + (c :: buf).length := by
      unfold toU32
      omega
    have whole : (c :: buf).take (c :: buf).length = c :: buf := List.take_length
    have copied := @strncpy_padded (c :: buf) (c :: buf).length (Nat.le_refl _)
    rw [whole] at copied
    generalize size : (c :: buf).length = n at *
    obtain ⟨n, rfl⟩ := Nat.exists_eq_succ_of_ne_zero (by rw [← size]; simp : n ≠ 0)
    rw [writeLoop, once, copied, ok_bind, Nat.sub_self, writeLoop, wrap]

theorem Resized.ready {entry : Fd} {length : Int} {fs' : List Nat} {own₁ : Owners} {s₁ : State}
    (resized : Resized entry length fs own s fs' own₁ s₁) (ready : Ready own s slot entry.inodeBid fs)
    (files : SameFile (s.fdtable slot) (s₁.fdtable slot)) : Ready own₁ s₁ slot entry.inodeBid fs' := by
  have super : s₁.disk.read 0 = s.disk.read 0 := resized.file.grows.kept (by simp [ready.sound.boot]) fun touched => by
    rcases touched with same | file
    · exact ready.sound.role_ne_zero ready.role (by decide) same.symm
    · rcases file.role with frame | data
      · exact ready.sound.role_ne_zero frame (by decide) rfl
      · exact ready.sound.role_ne_zero data (by decide) rfl
  refine ⟨resized.file.sound, by rw [show s₁.sb = s.sb from resized.file.grows.sb]; exact ready.loaded,
    by rw [super]; exact ready.super, resized.file.grows.role ready.role, files.1.trans ready.entry, resized.chain, ?_⟩
  rw [Ne, resized.chain.eq_nil_iff, resized.file.first, ← ready.chain.eq_nil_iff]
  exact ready.framed

theorem Resized.entryAt {entry : Fd} {length : Int} {fs' : List Nat} {own₁ : Owners} {s₁ : State}
    (resized : Resized entry length fs own s fs' own₁ s₁) (ready : Ready own s slot entry.inodeBid fs)
    (none : missingFrames s entry length = 0) (k : Nat) : entryAt s₁.disk fs' k = entryAt s.disk fs k := by
  obtain ⟨-, rfl, same⟩ := resized.same none
  refine entryAt_congr (fun f m => same f (ready.sound.role_lt (ready.roles f m)) ?_)
    (same 0 (by decide) (ready.sound.role_ne_zero ready.role (by decide)).symm) k
  rintro rfl
  have role := ready.roles _ m
  rw [ready.role] at role
  cases role

/-- There is a block for every hole that is left after the resize stage. -/
theorem Resized.free {entry : Fd} {fs' : List Nat} {own₁ : Owners} {s₁ : State}
    (resized : Resized entry n fs own s fs' own₁ s₁) (ready : Ready own s slot entry.inodeBid fs)
    (one : OneBlock entry.cur n) (fit : entry.cur + n < 4294967296) (free : blocksNeeded s entry n fs ≤ (s.disk.read 1).clearCount) :
    holesAt s₁.disk fs' (entry.cur / 512 % 127) (n / 512 + 1) ≤ (s₁.disk.read 1).clearCount := by
  have count := resized.count
  unfold blocksNeeded at free
  dsimp only at free
  rw [one.count fit] at free
  by_cases none : missingFrames s entry n = 0
  · rw [if_pos none] at free
    have same : holesAt s₁.disk fs' = holesAt s.disk fs := by
      funext i m
      exact congrArg List.length (List.filter_congr fun k _ => by rw [resized.entryAt ready none k])
    rw [same]
    omega
  · rw [if_neg none] at free
    have some : 1 ≤ fs.length := List.length_pos_iff.mpr ready.framed
    have length := resized.length_eq
    rw [framesAfter, if_neg none] at length
    have bound := one.1
    have holes := resized.holes (entry.cur / 512 % 127) (n / 512 + 1) (Nat.mod_lt _ (by decide)) (.inr (by omega))
    rw [if_neg none] at holes
    omega

/-- What a write of one copy leaves, counted from the end of its resize stage. -/
structure Stored (inode p : Nat) (buf : List UInt8) (fs : List Nat) (s s' : State) : Prop where
  size : size (s'.disk.read inode) = size (s.disk.read inode)
  bytes : ∀ q < 65024 * fs.length, byteAt s'.disk fs q =
    if p % 65024 ≤ q ∧ q < p % 65024 + buf.length then (padded buf).getD (q - p % 65024) 0 else byteAt s.disk fs q
  named : ∀ k, p / 512 % 127 ≤ k → k < p / 512 % 127 + (buf.length / 512 + 1) → Sfs.entryAt s'.disk fs k ≠ 0
  kept : ∀ k < 127 * fs.length, ¬ (p / 512 % 127 ≤ k ∧ k < p / 512 % 127 + (buf.length / 512 + 1)) →
    Sfs.entryAt s'.disk fs k = Sfs.entryAt s.disk fs k

theorem write_one {fd : Int} {buf : List UInt8} {entry : Fd} (index : fdIndex fd = .ok slot) (here : s.fdtable slot = entry)
    (ready : Ready own s slot entry.inodeBid fs) (one : OneBlock entry.cur buf.length)
    (fit : entry.cur + buf.length < 4294967296) (free : blocksNeeded s entry buf.length fs ≤ (s.disk.read 1).clearCount) :
    ∃ own₁ s₁ fs' own' s', Resized entry buf.length fs own s fs' own₁ s₁ ∧
      sfsWrite s fd buf buf.length = .ok ((buf.length : Int), s') ∧ Ready own' s' slot entry.inodeBid fs' ∧
      Stored entry.inodeBid entry.cur buf fs' s₁ s' := by
  have bids : (numBids (buf.length : Int)).toNat = buf.length / 512 + 1 := numBids_nonneg (by omega)
  have bound := one.1
  have blocks := free
  unfold blocksNeeded at blocks
  dsimp only at blocks
  have framed : firstFrame (s.disk.read entry.inodeBid) ≠ 0 := fun none => ready.framed (ready.chain.eq_nil_iff.mpr none)
  obtain ⟨own₁, s₁, fs', resize, resized, fds, cur⟩ := resizeStage_ok buf.length here ready.sound ready.loaded ready.role framed
    ready.chain (by omega)
  have ready₁ := resized.ready ready (fds.files slot)
  have frames : 1 ≤ fs'.length := List.length_pos_iff.mpr ready₁.framed
  obtain ⟨own', s₂, ids, collect, attached, named, kept⟩ := collect_one (numBids (buf.length : Int)).toNat ready₁ one fit
    (resized.free ready one fit free) (by omega)
  obtain ⟨ready₂, inode₂⟩ := ready₁.attached attached
  have first := named _ (Nat.le_refl _) (by omega)
  have copies := @writeLoop_one s₂.disk entry.cur buf (entryAt s₂.disk fs' (entry.cur / 512 % 127)) ids one.1 fit
  obtain ⟨ready₃, other⟩ := ready₂.store (k := entry.cur / 512 % 127) (by omega) first
    ((s₂.disk.read (entryAt s₂.disk fs' (entry.cur / 512 % 127))).patch (entry.cur % 512) (padded buf))
    (t := (s₂.setFd slot { s₂.fdtable slot with cur := entry.cur + buf.length }).fdtable) (by rw [setFd_self]; exact ready₂.entry)
  have frameKept : ∀ f ∈ fs', (s₂.disk.write (entryAt s₂.disk fs' (entry.cur / 512 % 127))
      ((s₂.disk.read (entryAt s₂.disk fs' (entry.cur / 512 % 127))).patch (entry.cur % 512) (padded buf))).read f =
      s₂.disk.read f := fun f m => other f (notData (ready₂.roles f m) (by decide)) (owned_of_role (ready₂.roles f m))
  have entries := fun k => entryAt_congr frameKept
    (other 0 (notData ready₂.sound.role_zero (by decide)) (by simp [ready₂.sound.boot])) k
  refine ⟨own₁, s₁, fs', own', _, resized, ?_, ready₃, ?_, fun q hq => ?_, fun k low high => ?_, fun k hk outside => ?_⟩
  · rw [sfsWrite, if_pos (by omega), sfsWriteWith, index, ok_bind]
    dsimp only
    rw [resize, ok_bind, here, collect, ok_bind]
    dsimp only
    rw [Int.toNat_natCast, copies, ok_bind]
    rfl
  · dsimp only
    rw [other _ (notData ready₂.role (by decide)) (owned_of_role ready₂.role), inode₂]
  · have bytes := attached.byteAt ready₁.sound ready₁.roles hq
    have stored := byteAt_write ready₂.sound ready₂.roles (Chain.nodup ready₂.chain)
      (by omega : entry.cur / 512 % 127 < 127 * fs'.length) first
      ((s₂.disk.read (entryAt s₂.disk fs' (entry.cur / 512 % 127))).patch (entry.cur % 512) (padded buf)) hq
    apply stored.trans
    by_cases block : q / 512 = entry.cur / 512 % 127
    · rw [if_pos block, Bytes.get_patch, length_padded]
      by_cases new : entry.cur % 65024 ≤ q ∧ q < entry.cur % 65024 + buf.length
      · rw [if_pos (by omega), if_pos new, show q % 512 - entry.cur % 512 = q - entry.cur % 65024 by omega]
      · rw [if_neg (by omega), if_neg new, ← bytes, byteAt, block, if_neg first]
    · rw [if_neg block, if_neg (by omega), bytes]
  · exact fun zero => named k low high ((entries k).symm.trans zero)
  · exact (entries k).trans (kept k hk outside)

/-! ### Descriptors -/

theorem allocFrom_fdtable {remaining fmBlk : Nat} {r : Nat × State} (run : allocFrom remaining fmBlk s = .ok r) :
    r.2.fdtable = s.fdtable := by
  induction remaining generalizing fmBlk s with
  | zero =>
    obtain rfl := Except.ok.inj run
    rfl
  | succ remaining ih =>
    rw [allocFrom] at run
    obtain ⟨entry, -, run⟩ := bind_ok run
    cases entry with
    | some place =>
      obtain rfl := Except.ok.inj run
      rfl
    | none => exact @ih { s with freemap := s.disk.read (fmBlk + 1) } (fmBlk + 1) run

theorem contentLoop_fdtable {cap remaining count : Nat} {frame : Block} {bids : List Nat} {fill : Fill}
    (run : contentLoop cap remaining count frame bids s = .ok fill) : fill.state.fdtable = s.fdtable := by
  induction remaining generalizing count frame bids s with
  | zero =>
    obtain rfl := Except.ok.inj run
    rfl
  | succ remaining ih =>
    rw [contentLoop] at run
    split at run
    · obtain ⟨⟨frame₁, s₁⟩, entry, run⟩ := bind_ok run
      dsimp only at run
      have kept : s₁.fdtable = s.fdtable := by
        rw [fillEntry] at entry
        split at entry
        · obtain ⟨⟨b, s₂⟩, alloc, entry⟩ := bind_ok entry
          obtain ⟨rfl, rfl⟩ := Prod.mk.inj (Except.ok.inj entry)
          exact allocFrom_fdtable alloc
        · obtain ⟨rfl, rfl⟩ := Prod.mk.inj (Except.ok.inj entry)
          rfl
      split at run
      · exact (ih run).trans kept
      · cases run
    · obtain rfl := Except.ok.inj run
      rfl

theorem frameLoop_fdtable {cap fuel remaining count frameBid : Nat} {bids : List Nat} {r : List Nat × State}
    (run : frameLoop cap fuel remaining count frameBid bids s = .ok r) : r.2.fdtable = s.fdtable := by
  induction fuel generalizing remaining count frameBid bids s with
  | zero => cases run
  | succ fuel ih =>
    rw [frameLoop] at run
    split at run
    · obtain rfl := Except.ok.inj run
      rfl
    · obtain ⟨fill, filled, run⟩ := bind_ok run
      exact (ih run).trans (contentLoop_fdtable filled)

/-- A write that returns leaves the descriptor with its file. -/
theorem sfsWrite_inodeBid {fd : Int} {buf : List UInt8} {n : Nat} {r : Int} {s₁ : State} (index : fdIndex fd = .ok slot)
    (resize : resizeStage s slot n = .ok s₁) (run : sfsWrite s fd buf n = .ok (r, s')) :
    (s'.fdtable slot).inodeBid = (s₁.fdtable slot).inodeBid := by
  have some := @numBids_nonneg n (by omega)
  rw [sfsWrite, if_pos (by omega), sfsWriteWith, index, ok_bind] at run
  dsimp only at run
  rw [resize, ok_bind] at run
  obtain ⟨⟨ids, s₂⟩, collect, run⟩ := bind_ok run
  obtain ⟨⟨cur, disk⟩, -, run⟩ := bind_ok run
  obtain ⟨-, rfl⟩ := Prod.mk.inj (Except.ok.inj run)
  have kept : s₂.fdtable = s₁.fdtable := frameLoop_fdtable collect
  dsimp only
  rw [setFd_self, kept]

/-! ### Reading -/

/-- A read whose scan passes and whose blocks are all there makes one copy. -/
theorem read_one {fd : Int} {out : List UInt8} (index : fdIndex fd = .ok slot) (ready : Ready own s slot inode fs)
    (cursor : (s.fdtable slot).cur = p) (one : OneBlock p n) (fit : p + n < 4294967296)
    (stays : ¬ BreaksOff s.disk (firstFrameOf s slot) p n)
    (scan : NoHoles s.disk (firstFrameOf s slot) (min (p / 512) 127) (n / 512 + 1))
    (named : NoHoles s.disk (firstFrameOf s slot) (p / 512 % 127) (n / 512 + 1)) (room : n ≤ out.length) :
    ∃ out' s', sfsRead s fd out n = .ok ((n : Int), out', s') ∧
      out'.take n = padded ((List.range n).map fun i => byteAt s.disk fs (p % 65024 + i)) := by
  obtain rfl := ready.entry
  have bids : (numBids (n : Int)).toNat = n / 512 + 1 := numBids_nonneg (by omega)
  have bound := one.1
  have first : firstFrame (s.disk.read (s.fdtable slot).inodeBid) = firstFrameOf s slot := rfl
  have counted : countBlocks s.disk (n / 512 + 1) ((p / 65024 : Nat) - ((p + n) / 65024 : Nat) + 1) (n / 512 + 1 + 2)
      (firstFrameOf s slot) (p / 512) 0 = .ok (n / 512 + 1) := by
    rcases @countBlocks_cases s.disk (firstFrameOf s slot) p n (n / 512 + 2) (by omega) with ⟨breaks, -⟩ | ⟨-, -, run⟩ | ⟨-, hole, -⟩
    · exact absurd breaks stays
    · exact run
    · exact absurd scan hole
  have collect := @frameLoop_idle s (firstFrameOf s slot) (n / 512 + 1) (n / 512 + 1 + 1) (n / 512 + 1) (p / 512 % 127) []
    (Nat.mod_lt _ (by decide)) named (Nat.lt_succ_self _) (by rw [List.length_nil, Nat.zero_add])
  have chain : Chain (frameNext s.disk) (firstFrameOf s slot) fs := first ▸ ready.chain
  have block := scanEntry_chain chain (by omega : p / 512 % 127 < 127 * (fs.length + 1))
  have here : entryAt s.disk fs (p / 512 % 127) ≠ 0 := block ▸ named _ (Nat.le_refl _) (by omega)
  rw [List.nil_append, List.range'_succ, List.map_cons, block] at collect
  generalize (List.range' (p / 512 % 127 + 1) (n / 512)).map (scanEntry s.disk (firstFrameOf s slot)) = ids at collect
  obtain ⟨cur, out', copied, taken⟩ : ∃ cur out',
    readLoop s.disk (entryAt s.disk fs (p / 512 % 127) :: ids) n (p % 512) p out = .ok (cur, out') ∧
      out'.take n = padded ((List.range n).map fun i => byteAt s.disk fs (p % 65024 + i)) := by
    cases n with
    | zero => exact ⟨p, out, rfl, rfl⟩
    | succ n =>
      have once : toCopy (p % 512) (n + 1) = n + 1 := by
        rcases @toCopy_cases (p % 512) (n + 1) (Nat.mod_lt _ (by decide)) with h | h | h <;> omega
      have source : n + 1 ≤ ((s.disk.read (entryAt s.disk fs (p / 512 % 127))).toList.drop (p % 512)).length := by
        rw [List.length_drop, Bytes.length_toList]
        omega
      have place : p / 512 % 127 = p % 65024 / 512 ∧ p % 512 = p % 65024 % 512 := by omega
      rw [readLoop, once, strncpy_padded source, ok_bind, place.1, place.2, bytes_of_block (by rw [← place.1]; exact here)
        (by rw [← place.2]; exact one.1), blit, if_pos (by simpa using room), ok_bind, Nat.sub_self, readLoop]
      refine ⟨_, _, rfl, ?_⟩
      rw [overlay, List.take_zero, List.nil_append, List.take_append_of_le_length (by simp), List.take_of_length_le (by simp)]
  refine ⟨out', s.setFd slot { s.fdtable slot with cur }, ?_, taken⟩
  rw [sfsRead, index, ok_bind]
  dsimp only
  rw [if_pos (by omega), cursor, bids, toU32_add fit, first, counted, ok_bind, if_neg (Nat.lt_irrefl _),
    sfsGetFileContent, one.count fit, first, show SFS_FRAME_COUNT = 127 from rfl, collect, ok_bind]
  dsimp only
  rw [Int.toNat_natCast, copied, ok_bind]
  by_cases some : (0 : Int) < n
  · rw [if_pos some]
  · rw [if_neg some, show (n : Int) = 0 by omega]

/-! ### Reads that cannot be right -/

theorem readLoop_last {bids : List Nat} {remaining offset cur : Nat} {buf : List UInt8} {r : Nat × List UInt8}
    (inBlock : offset < 512) (short : toCopy offset remaining < n) (rest : remaining ≤ n)
    (run : readLoop d bids remaining offset cur buf = .ok r) : r.2[n - 1]? = buf[n - 1]? := by
  induction bids generalizing remaining offset cur buf with
  | nil =>
    cases remaining with
    | zero =>
      obtain rfl := Except.ok.inj run
      rfl
    | succ remaining => cases run
  | cons b bids ih =>
    cases remaining with
    | zero =>
      obtain rfl := Except.ok.inj run
      rfl
    | succ remaining =>
      rw [readLoop] at run
      obtain ⟨bytes, copied, run⟩ := bind_ok run
      obtain ⟨buf', stored, run⟩ := bind_ok run
      have size := length_strncpy copied
      have fits : 0 + bytes.length ≤ buf.length := by
        by_contra outside
        rw [blit, if_neg outside] at stored
        cases stored
      rw [blit, if_pos fits] at stored
      obtain rfl := Except.ok.inj stored
      have shape := @toCopy_cases offset (remaining + 1) inBlock
      have later := @toCopy_le 0 (remaining + 1 - toCopy offset (remaining + 1))
      rw [ih (by decide) (by omega) (by omega) run, getElem?_overlay fits, if_neg (by omega)]

/-- A read that gives `buf`, whatever the buffer held, takes one copy, and its scan finds all its blocks. -/
theorem reads_one {fd : Int} {buf : List UInt8} (index : fdIndex fd = .ok slot) (cursor : (s.fdtable slot).cur = p)
    (fit : p + buf.length < 4294967296) (chain : Chain (frameNext s.disk) (firstFrameOf s slot) fs)
    (covers : p + buf.length ≤ 65024 * fs.length) (reads : ∀ out, buf.length ≤ out.length →
      ∃ out' s', sfsRead s fd out buf.length = .ok ((buf.length : Int), out', s') ∧ out'.take buf.length = buf) :
    OneBlock p buf.length ∧ ¬ BreaksOff s.disk (firstFrameOf s slot) p buf.length ∧
      NoHoles s.disk (firstFrameOf s slot) (min (p / 512) 127) (buf.length / 512 + 1) := by
  obtain ⟨c, other⟩ : ∃ c : UInt8, c ≠ buf.getD (buf.length - 1) 0 := by
    by_cases zero : buf.getD (buf.length - 1) 0 = 0
    · exact ⟨1, by rw [zero]; decide⟩
    · exact ⟨0, fun same => zero same.symm⟩
  obtain ⟨out', s', run, taken⟩ := reads (List.replicate buf.length c) (by rw [List.length_replicate])
  obtain ⟨count, ids, s₁, cur, parts⟩ := sfsRead_parts index (by rw [cursor]; exact fit) run
  have array := parts.array
  have copy := parts.copy
  have scan := parts.scan
  rw [cursor] at array copy scan
  have stays : ¬ BreaksOff s.disk (firstFrameOf s slot) p buf.length := fun breaks => by
    obtain ⟨late, last, -⟩ := id breaks
    -- The file has one frame, so nothing is read, and still the rest of a block is copied.
    have few : fs.length ≤ 1 := by
      cases fs with
      | nil => exact Nat.zero_le _
      | cons f rest =>
        obtain ⟨rfl, -, back⟩ := chain
        obtain rfl := back.eq_nil_iff.mpr last
        exact Nat.le_refl _
    rcases @countBlocks_cases s.disk (firstFrameOf s slot) p buf.length (buf.length / 512 + 2) (by omega)
      with ⟨-, none⟩ | ⟨stays, -⟩ | ⟨stays, -⟩
    · obtain rfl := Except.ok.inj (none.symm.trans scan)
      have fits := readLoop_fits (Nat.mod_lt _ (by decide)) copy
      rw [if_pos (Nat.succ_pos _), List.length_replicate] at fits
      omega
    · exact stays breaks
    · exact stays breaks
  rcases @countBlocks_cases s.disk (firstFrameOf s slot) p buf.length (buf.length / 512 + 2) (by omega)
    with ⟨breaks, -⟩ | ⟨-, all, found⟩ | ⟨-, -, spins⟩
  · exact absurd breaks stays
  · refine ⟨⟨?_, by omega⟩, stays, all⟩
    obtain rfl := Except.ok.inj (found.symm.trans scan)
    rw [if_neg (Nat.lt_irrefl _)] at copy
    by_contra long
    have last : buf.length - 1 < buf.length := by omega
    have shape := @toCopy_cases (p % 512) buf.length (Nat.mod_lt _ (by decide))
    have kept := readLoop_last (n := buf.length) (Nat.mod_lt _ (by decide)) (by omega) (Nat.le_refl _) copy
    have read : out'[buf.length - 1]? = buf[buf.length - 1]? := by
      rw [← List.getElem?_take_of_lt last, taken]
    rw [read, List.getElem?_replicate, if_pos last] at kept
    rw [List.getD_eq_getElem?_getD, kept, Option.getD_some] at other
    exact other rfl
  · cases spins.symm.trans scan

/-! ### What the write leaves -/

section
variable {fd : Int} {buf : List UInt8} {entry : Fd} {fs' : List Nat} {own₁ : Owners} {s₁ : State}

theorem missingFrames_eq (position : entry.cur + n < 4294967296) (small : size (s.disk.read entry.inodeBid) ≤ 65024 * 4096) :
    missingFrames s entry n = if entry.cur + n + 65023 < 4294967296 then
      framesOf (entry.cur + n) - framesOf (size (s.disk.read entry.inodeBid)) else 0 := by
  have total : toU32 ((n : Int) + entry.cur) = entry.cur + n := by
    unfold toU32
    omega
  have old := oldFrames_eq (show size (s.disk.read entry.inodeBid) < 2147418624 by omega)
  unfold missingFrames
  dsimp only
  rw [total, old]
  by_cases larger : entry.cur + n > size (s.disk.read entry.inodeBid)
  · rw [if_pos larger]
    by_cases fits : entry.cur + n + 65023 < 4294967296
    · rw [if_pos fits, newFrames_eq fits (by omega)]
      omega
    · rw [if_neg fits]
      have some := one_le_framesOf (size (s.disk.read entry.inodeBid))
      unfold newFrames toU32
      omega
  · have old := le_framesOf (size (s.disk.read entry.inodeBid))
    have enough := framesOf_le_framesOf (show entry.cur + n ≤ 65024 * framesOf (size (s.disk.read entry.inodeBid)) by omega)
    rw [if_neg larger]
    split <;> omega

/-- The frames cover the file, unless too many are missing or there are others behind the first one. -/
theorem frames_cover_iff (resized : Resized entry n fs own s fs' own₁ s₁) (framed : fs ≠ [])
    (few : fs.length ≤ 4096) (covers : size (s.disk.read entry.inodeBid) ≤ 65024 * fs.length)
    (position : entry.cur + n < 4294967296) :
    max (size (s.disk.read entry.inodeBid)) (entry.cur + n) ≤ 65024 * fs'.length ↔
      entry.cur + n ≤ 65024 * framesOf (size (s.disk.read entry.inodeBid)) ∨
        size (s.disk.read entry.inodeBid) ≤ 65024 ∧ entry.cur + n + 65023 < 4294967296 := by
  have some : 1 ≤ fs.length := List.length_pos_iff.mpr framed
  have length := resized.length_eq
  rw [missingFrames_eq position (by omega)] at length
  unfold framesAfter at length
  generalize size (s.disk.read entry.inodeBid) = bytes at *
  have old : framesOf bytes ≤ fs.length := framesOf_le_iff.mpr ⟨some, covers⟩
  have one := one_le_framesOf bytes
  have larger := @framesOf_lt_iff bytes (entry.cur + n)
  have small := @framesOf_le_iff bytes 1
  have new := @framesOf_le_iff (entry.cur + n) fs'.length
  split at length <;> split at length <;> omega

theorem FileOk.getD (file : FileOk d inode fs) {q : Nat} (inside : q < 65024 * fs.length) :
    ((List.range (size (d.read inode))).map (byteAt d fs)).getD q 0 = byteAt d fs q := by
  rw [List.getD_eq_getElem?_getD, List.getElem?_map]
  by_cases held : q < size (d.read inode)
  · rw [List.getElem?_range held, Option.map_some, Option.getD_some]
  · rw [List.getElem?_eq_none (by rw [List.length_range]; omega), Option.map_none, Option.getD_none]
    exact (file.tail q (by omega) inside).symm

/-- Every byte is the old one, but for those that take their block from the first frame. -/
theorem bytes_written {old : List UInt8} (stored : Stored inode p buf fs' s₁ s')
    (resized : Resized entry n fs own s fs' own₁ s₁) (file : FileOk s.disk entry.inodeBid fs) (framed : fs ≠ [])
    (holds : old = (List.range (size (s.disk.read entry.inodeBid))).map (byteAt s.disk fs))
    (first : missingFrames s entry n = 0 ∨ old.length ≤ 65024) {q : Nat} (inside : q < 65024 * fs'.length) :
    byteAt s'.disk fs' q =
      if p % 65024 ≤ q ∧ q < p % 65024 + buf.length then (padded buf).getD (q - p % 65024) 0 else old.getD q 0 := by
  have some : 1 ≤ fs.length := List.length_pos_iff.mpr framed
  rw [stored.bytes q inside]
  split
  · rfl
  rw [resized.bytes q inside]
  split
  · rename_i kept
    rw [holds, file.getD]
    rcases kept with none | low
    · obtain ⟨-, rfl, -⟩ := resized.same none
      exact inside
    · omega
  · rename_i appended
    rw [List.getD_eq_getElem?_getD, List.getElem?_eq_none (by omega), Option.getD_none]

/-- The file holds `buf` at `p`: inside the first frame when `strncpy` keeps it, behind it when both places had it. -/
theorem holds_writeAt_iff {old : List UInt8} (chain : FrameChain d inode fs) (short : buf.length ≤ 512)
    (grown : size (d.read inode) = max old.length (p + buf.length)) (covers : size (d.read inode) ≤ 65024 * fs.length)
    (bytes : ∀ q < 65024 * fs.length, byteAt d fs q =
      if p % 65024 ≤ q ∧ q < p % 65024 + buf.length then (padded buf).getD (q - p % 65024) 0 else old.getD q 0) :
    FileHolds d inode (writeAt old p buf) ↔ if p < 65024 then padded buf = buf else
      (∀ i < buf.length, old.getD (p + i) 0 = buf.getD i 0) ∧
        ∀ i < buf.length, old.getD (p % 65024 + i) 0 = (padded buf).getD i 0 := by
  rw [chain.holds_iff]
  have length : (writeAt old p buf).length = size (d.read inode) := by rw [length_writeAt, grown]
  have place : (∀ q < size (d.read inode), (writeAt old p buf).getD q 0 = byteAt d fs q) ↔
      ∀ q < max old.length (p + buf.length), (if p ≤ q ∧ q < p + buf.length then buf.getD (q - p) 0 else old.getD q 0) =
        if p % 65024 ≤ q ∧ q < p % 65024 + buf.length then (padded buf).getD (q - p % 65024) 0 else old.getD q 0 := by
    rw [← grown]
    exact forall₂_congr fun q hq => by rw [getD_writeAt, bytes q (by omega)]
  rw [and_iff_right covers, and_iff_right length, place]
  by_cases near : p < 65024
  · rw [if_pos near, Nat.mod_eq_of_lt near]
    constructor
    · intro same
      apply List.ext_getElem (length_padded buf)
      intro i low high
      have here := same (p + i) (by omega)
      rw [if_pos (by omega), if_pos (by omega), Nat.add_sub_cancel_left, List.getD_eq_getElem _ _ low,
        List.getD_eq_getElem _ _ high] at here
      exact here.symm
    · intro same q hq
      rw [same]
  · rw [if_neg near]
    constructor
    · refine fun same => ⟨fun i hi => ?_, fun i hi => ?_⟩
      · have here := same (p + i) (by omega)
        rw [if_pos (by omega), if_neg (by omega), Nat.add_sub_cancel_left] at here
        exact here.symm
      · have here := same (p % 65024 + i) (by omega)
        rwa [if_neg (by omega), if_pos (by omega), Nat.add_sub_cancel_left] at here
    · rintro ⟨there, twice⟩ q hq
      by_cases new : p ≤ q ∧ q < p + buf.length
      · rw [if_pos new, if_neg (by omega), ← there _ (by omega), Nat.add_sub_cancel' new.1]
      · rw [if_neg new]
        split
        · rename_i twin
          rw [← twice _ (by omega), Nat.add_sub_cancel' twin.1]
        · rfl

/-- Behind the first frame the scan of the read starts at the second one, which has to be there with its blocks. -/
theorem scan_iff {f : Nat} (chain : Chain (frameNext s'.disk) f fs') (framed : fs' ≠ []) (late : 65024 ≤ p)
    (one : OneBlock p buf.length) (covers : p + buf.length ≤ 65024 * fs'.length) (stored : Stored inode p buf fs' s₁ s') :
    ¬ BreaksOff s'.disk f p buf.length ∧ NoHoles s'.disk f 127 (buf.length / 512 + 1) ↔ 2 ≤ fs'.length ∧
      ∀ j ≤ buf.length / 512, entryAt s₁.disk fs' (127 + j) ≠ 0 ∨ p / 512 % 127 = 126 ∧ buf.length = 512 ∧ j = 0 := by
  have some : 1 ≤ fs'.length := List.length_pos_iff.mpr framed
  have bound := one.1
  have stays : ¬ BreaksOff s'.disk f p buf.length ↔ 2 ≤ fs'.length := by
    obtain ⟨g, rest, rfl⟩ := List.exists_cons_of_ne_nil framed
    obtain ⟨rfl, -, back⟩ := chain
    have last : nextFrame (s'.disk.read g) = 0 ↔ rest = [] := back.eq_nil_iff.symm
    rw [List.length_cons] at covers ⊢
    constructor
    · intro stays
      by_contra short
      obtain rfl : rest = [] := List.eq_nil_of_length_eq_zero (by omega)
      rw [List.length_nil] at covers
      exact stays ⟨by omega, last.mpr rfl, by rw [show p + buf.length = p by omega]⟩
    · rintro two ⟨-, none, -⟩
      rw [last.mp none, List.length_nil] at two
      omega
  rw [stays, and_congr_right_iff]
  intro two
  have entry : ∀ j ≤ buf.length / 512, scanEntry s'.disk f (127 + j) = entryAt s'.disk fs' (127 + j) := fun j hj =>
    scanEntry_chain chain (by omega)
  constructor
  · intro all j hj
    by_cases filled : p / 512 % 127 = 126 ∧ buf.length = 512 ∧ j = 0
    · exact .inr filled
    · left
      rw [← stored.kept (127 + j) (by omega) (by omega), ← entry j hj]
      exact all (127 + j) (by omega) (by omega)
  · intro all k low high
    obtain ⟨j, rfl⟩ := Nat.exists_eq_add_of_le low
    rw [entry j (by omega)]
    by_cases filled : p / 512 % 127 = 126 ∧ buf.length = 512 ∧ j = 0
    · exact stored.named _ (by omega) (by omega)
    · rw [stored.kept (127 + j) (by omega) (by omega)]
      exact (all j (by omega)).resolve_right filled

/-- Frames that were appended are full, and a file that had its frames keeps them. -/
theorem second_frame_iff (resized : Resized entry n fs own s fs' own₁ s₁) (ready : Ready own s slot entry.inodeBid fs)
    (one : OneBlock entry.cur n) (position : entry.cur + n < 4294967296) (late : 65024 ≤ entry.cur)
    (small : size (s.disk.read entry.inodeBid) ≤ 65024 * 4096)
    (frames : entry.cur + n ≤ 65024 * framesOf (size (s.disk.read entry.inodeBid)) ∨
      size (s.disk.read entry.inodeBid) ≤ 65024 ∧ entry.cur + n + 65023 < 4294967296) {Edge : Nat → Prop} :
    (2 ≤ fs'.length ∧ ∀ j ≤ n / 512, entryAt s₁.disk fs' (127 + j) ≠ 0 ∨ Edge j) ↔
      65024 * framesOf (size (s.disk.read entry.inodeBid)) < entry.cur + n ∨
        2 ≤ fs.length ∧ ∀ j ≤ n / 512, entryAt s.disk fs (127 + j) ≠ 0 ∨ Edge j := by
  have bound := one.1
  have count := missingFrames_eq position small
  have length := resized.length_eq
  unfold framesAfter at length
  by_cases appends : 65024 * framesOf (size (s.disk.read entry.inodeBid)) < entry.cur + n
  · have missing : missingFrames s entry n ≠ 0 := by
      have more := framesOf_lt_iff.mpr appends
      rw [count, if_pos (by omega)]
      omega
    rw [if_neg missing] at length
    refine iff_of_true ⟨by omega, fun j hj => .inl ?_⟩ (.inl appends)
    exact resized.full missing (127 + j) (by omega) (by omega)
  · have none : missingFrames s entry n = 0 := by
      have enough := framesOf_le_framesOf (Nat.not_lt.mp appends)
      rw [count]
      split <;> omega
    obtain ⟨-, rfl, -⟩ := resized.same none
    rw [or_iff_right appends]
    simp only [resized.entryAt ready none]

end

/-! ### The round trip -/

/-- The write stores the buffer at the cursor, and a read from there returns it. -/
def WriteStores (s : State) (fd : Int) (slot : Fin 32) (buf : List UInt8) : Prop :=
  let entry := s.fdtable slot
  ∃ old s', FileHolds s.disk entry.inodeBid old ∧ sfsWrite s fd buf buf.length = .ok ((buf.length : Int), s') ∧
    FileHolds s'.disk entry.inodeBid (writeAt old entry.cur buf) ∧
    ∀ out, buf.length ≤ out.length → ∃ s₁ out' s₂, sfsSeek s' fd entry.cur 0 = .ok (0, s₁) ∧
      sfsRead s₁ fd out buf.length = .ok ((buf.length : Int), out', s₂) ∧ out'.take buf.length = buf

/-- What a write behind the first frame needs: frames up to its end, which come behind the first one when they
are new, the bytes of `buf` at `p` and where the first frame has them, and blocks for the scan of the read. -/
structure BehindFirst (d : Image) (fs : List Nat) (old buf : List UInt8) (p : Nat) : Prop where
  frames : p + buf.length ≤ 65024 * framesOf old.length ∨ old.length ≤ 65024 ∧ p + buf.length + 65023 < 4294967296
  there : ∀ i < buf.length, old.getD (p + i) 0 = buf.getD i 0
  twice : ∀ i < buf.length, old.getD (p % 65024 + i) 0 = buf.getD i 0
  scan : 65024 * framesOf old.length < p + buf.length ∨ 2 ≤ fs.length ∧
    ∀ j ≤ buf.length / 512, entryAt d fs (127 + j) ≠ 0 ∨ p / 512 % 127 = 126 ∧ buf.length = 512 ∧ j = 0

variable {fd : Int} {buf old : List UInt8} {entry : Fd}

theorem Ready.length_le (ready : Ready own s slot inode fs) : fs.length ≤ 4096 :=
  ready.chain.length_le ready.sound ready.role

theorem Ready.seek (ready : Ready own s slot inode fs) (p : Nat) :
    Ready own (s.setFd slot { s.fdtable slot with cur := p }) slot inode fs :=
  ⟨ready.sound, ready.loaded, ready.super, ready.role, by rw [setFd_self]; exact ready.entry, ready.chain, ready.framed⟩

theorem Stored.noHoles {f : Nat} {s₁ : State} (stored : Stored inode p buf fs s₁ s) (one : OneBlock p buf.length)
    (chain : Chain (frameNext s.disk) f fs) (framed : fs ≠ []) :
    NoHoles s.disk f (p / 512 % 127) (buf.length / 512 + 1) := by
  have some : 1 ≤ fs.length := List.length_pos_iff.mpr framed
  have bound := one.1
  intro k low high
  rw [scanEntry_chain chain (by omega)]
  exact stored.named k low high

/-- Once the scan passes, the read gives what `strncpy` left. -/
theorem reads_back {s₁ : State} {out : List UInt8} (index : fdIndex fd = .ok slot) (ready : Ready own s slot inode fs)
    (one : OneBlock p buf.length) (fit : p + buf.length < 4294967296) (stored : Stored inode p buf fs s₁ s)
    (stays : ¬ BreaksOff s.disk (firstFrame (s.disk.read inode)) p buf.length)
    (scan : NoHoles s.disk (firstFrame (s.disk.read inode)) (min (p / 512) 127) (buf.length / 512 + 1))
    (room : buf.length ≤ out.length) :
    ∃ out' s₂, sfsRead (s.setFd slot { s.fdtable slot with cur := p }) fd out buf.length = .ok ((buf.length : Int), out', s₂) ∧
      out'.take buf.length = padded buf := by
  obtain rfl := ready.entry
  have some : 1 ≤ fs.length := List.length_pos_iff.mpr ready.framed
  have bound := one.1
  have first : firstFrameOf (s.setFd slot { s.fdtable slot with cur := p }) slot =
      firstFrame (s.disk.read (s.fdtable slot).inodeBid) := by
    rw [firstFrameOf, setFd_self, setFd_disk]
  have named := stored.noHoles one ready.chain ready.framed
  rw [← first] at stays scan named
  obtain ⟨out', s₂, read, taken⟩ := read_one index (ready.seek p) (by rw [setFd_self]) one fit stays scan named room
  refine ⟨out', s₂, read, ?_⟩
  have back : ((List.range buf.length).map fun i => byteAt s.disk fs (p % 65024 + i)) = padded buf := by
    refine List.ext_getElem (by rw [List.length_map, List.length_range, length_padded]) fun i low high => ?_
    rw [length_padded] at high
    rw [List.getElem_map, List.getElem_range, stored.bytes _ (by omega), if_pos (by omega), Nat.add_sub_cancel_left,
      List.getD_eq_getElem _ _ (by rw [length_padded]; exact high)]
  rw [taken, setFd_disk, back, padded_padded]

/-- The file holds `buf` after a write of one copy when it has its frames, and the bytes as `holds_writeAt_iff` says. -/
theorem write_holds_iff {own₁ : Owners} {s₁ : State} {fs' : List Nat} (ready : Ready own s slot entry.inodeBid fs)
    (file : FileOk s.disk entry.inodeBid fs) (one : OneBlock entry.cur buf.length) (fit : entry.cur + buf.length < 4294967296)
    (resized : Resized entry buf.length fs own s fs' own₁ s₁) (ready' : Ready own' s' slot entry.inodeBid fs')
    (stored : Stored entry.inodeBid entry.cur buf fs' s₁ s')
    (bytes : old = (List.range (size (s.disk.read entry.inodeBid))).map (byteAt s.disk fs)) :
    FileHolds s'.disk entry.inodeBid (writeAt old entry.cur buf) ↔
      (entry.cur + buf.length ≤ 65024 * framesOf old.length ∨
        old.length ≤ 65024 ∧ entry.cur + buf.length + 65023 < 4294967296) ∧
      if entry.cur < 65024 then padded buf = buf else
        (∀ i < buf.length, old.getD (entry.cur + i) 0 = buf.getD i 0) ∧
          ∀ i < buf.length, old.getD (entry.cur % 65024 + i) 0 = (padded buf).getD i 0 := by
  have length : old.length = size (s.disk.read entry.inodeBid) := by rw [bytes, List.length_map, List.length_range]
  have covers := file.covers
  have few := ready.length_le
  have bound := one.1
  have grown : size (s'.disk.read entry.inodeBid) = max old.length (entry.cur + buf.length) := by
    have total : toU32 ((buf.length : Int) + entry.cur) = entry.cur + buf.length := by
      unfold toU32
      omega
    rw [stored.size, resized.size, total, length]
  have frames := frames_cover_iff resized ready.framed few covers fit
  rw [← length, ← grown] at frames
  rw [← frames]
  have holds := fun covers first => @holds_writeAt_iff _ _ _ _ buf old ready'.chain (by omega) grown covers fun q hq =>
    bytes_written stored resized file ready.framed bytes first hq
  have first : size (s'.disk.read entry.inodeBid) ≤ 65024 * fs'.length → missingFrames s entry buf.length = 0 ∨
      old.length ≤ 65024 := fun covered => by
    rcases frames.mp covered with inside | appends
    · left
      have enough := framesOf_le_framesOf inside
      rw [missingFrames_eq fit (by omega), ← length]
      split <;> omega
    · exact .inr appends.1
  constructor
  · intro held
    have covered := (ready'.chain.holds_iff.mp held).1
    exact ⟨covered, (holds covered (first covered)).mp held⟩
  · rintro ⟨covered, same⟩
    exact (holds covered (first covered)).mpr same

/-- The scan of a read from the cursor passes when the cursor is in the first frame, or the second one has the blocks. -/
theorem read_scan_iff {own₁ : Owners} {s₁ : State} {fs' : List Nat} (ready : Ready own s slot entry.inodeBid fs)
    (one : OneBlock entry.cur buf.length) (fit : entry.cur + buf.length < 4294967296)
    (resized : Resized entry buf.length fs own s fs' own₁ s₁) (ready' : Ready own' s' slot entry.inodeBid fs')
    (stored : Stored entry.inodeBid entry.cur buf fs' s₁ s') (covers : entry.cur + buf.length ≤ 65024 * fs'.length)
    (small : size (s.disk.read entry.inodeBid) ≤ 65024 * 4096)
    (frames : entry.cur + buf.length ≤ 65024 * framesOf (size (s.disk.read entry.inodeBid)) ∨
      size (s.disk.read entry.inodeBid) ≤ 65024 ∧ entry.cur + buf.length + 65023 < 4294967296) :
    (¬ BreaksOff s'.disk (firstFrame (s'.disk.read entry.inodeBid)) entry.cur buf.length ∧
      NoHoles s'.disk (firstFrame (s'.disk.read entry.inodeBid)) (min (entry.cur / 512) 127) (buf.length / 512 + 1)) ↔
    (65024 ≤ entry.cur → 65024 * framesOf (size (s.disk.read entry.inodeBid)) < entry.cur + buf.length ∨ 2 ≤ fs.length ∧
      ∀ j ≤ buf.length / 512, entryAt s.disk fs (127 + j) ≠ 0 ∨ entry.cur / 512 % 127 = 126 ∧ buf.length = 512 ∧ j = 0) := by
  by_cases late : 65024 ≤ entry.cur
  · rw [Nat.min_eq_right (by omega), scan_iff ready'.chain ready'.framed late one covers stored,
      second_frame_iff resized ready one fit late small frames]
    exact ⟨fun second _ => second, fun second => second late⟩
  · have named := stored.noHoles one ready'.chain ready'.framed
    rw [Nat.mod_eq_of_lt (by omega)] at named
    rw [Nat.min_eq_left (by omega)]
    refine iff_of_true ⟨fun breaks => ?_, named⟩ fun late' => absurd late' late
    have late' := breaks.1
    omega

/-- A write that stores its buffer takes one copy, and the scan of the read finds all blocks. -/
theorem WriteStores.parts (stores : WriteStores s fd slot buf) (index : fdIndex fd = .ok slot) (here : s.fdtable slot = entry)
    (ready : Ready own s slot entry.inodeBid fs) (holds : FileHolds s.disk entry.inodeBid old)
    (free : blocksNeeded s entry buf.length fs ≤ (s.disk.read 1).clearCount) :
    ∃ s', sfsWrite s fd buf buf.length = .ok ((buf.length : Int), s') ∧
      FileHolds s'.disk entry.inodeBid (writeAt old entry.cur buf) ∧ entry.cur + buf.length < 4294967296 ∧
      OneBlock entry.cur buf.length ∧ ¬ BreaksOff s'.disk (firstFrame (s'.disk.read entry.inodeBid)) entry.cur buf.length ∧
      NoHoles s'.disk (firstFrame (s'.disk.read entry.inodeBid)) (min (entry.cur / 512) 127) (buf.length / 512 + 1) ∧
      ∀ out, buf.length ≤ out.length → ∃ out' s₂, sfsRead (s'.setFd slot { s'.fdtable slot with cur := entry.cur }) fd out
        buf.length = .ok ((buf.length : Int), out', s₂) ∧ out'.take buf.length = buf := by
  obtain ⟨old', s', before, run, after, reads⟩ := stores
  rw [here] at before after reads
  obtain rfl := before.unique holds
  have reads' : ∀ out, buf.length ≤ out.length → ∃ out' s₂,
      sfsRead (s'.setFd slot { s'.fdtable slot with cur := entry.cur }) fd out buf.length = .ok ((buf.length : Int), out', s₂) ∧
        out'.take buf.length = buf := fun out room => by
    obtain ⟨s₁, out', s₂, seek, read, taken⟩ := reads out room
    obtain rfl := (Prod.mk.inj (Except.ok.inj (seek.symm.trans (sfsSeek_set index entry.cur)))).2
    exact ⟨out', s₂, read, taken⟩
  obtain ⟨fs₂, chain, covered, image⟩ := id after
  have grown := congrArg List.length image
  rw [length_writeAt, List.length_map, List.length_range] at grown
  have range : size (s'.disk.read entry.inodeBid) < 4294967296 := Bytes.word_lt _ _
  have fit : entry.cur + buf.length < 4294967296 := by omega
  have blocks := free
  unfold blocksNeeded at blocks
  dsimp only at blocks
  obtain ⟨-, s₀, -, resize, -, fds, -⟩ := resizeStage_ok buf.length here ready.sound ready.loaded ready.role
    (fun none => ready.framed (ready.chain.eq_nil_iff.mpr none)) ready.chain (by omega)
  have kept : (s'.fdtable slot).inodeBid = entry.inodeBid :=
    (sfsWrite_inodeBid index resize run).trans ((fds.files slot).1.trans (by rw [here]))
  have first : firstFrameOf (s'.setFd slot { s'.fdtable slot with cur := entry.cur }) slot =
      firstFrame (s'.disk.read entry.inodeBid) := by
    rw [firstFrameOf, setFd_self, setFd_disk, kept]
  obtain ⟨one, stays, scan⟩ := reads_one index (by rw [setFd_self]) fit (by rw [first, setFd_disk]; exact chain) (by omega) reads'
  rw [first, setFd_disk] at stays scan
  exact ⟨s', run, after, fit, one, stays, scan, reads'⟩

/-- A write is right exactly for one copy without a byte behind a zero, and behind the first frame when the file has
the bytes already. -/
theorem write_stores_iff (healthy : Healthy own s) (index : fdIndex fd = .ok slot) (here : s.fdtable slot = entry)
    (role : Owners.role own entry.inodeBid = some .inode) (file : FileOk s.disk entry.inodeBid fs)
    (holds : FileHolds s.disk entry.inodeBid old)
    (free : blocksNeeded s entry buf.length fs ≤ (s.disk.read 1).clearCount) :
    WriteStores s fd slot buf ↔ OneBlock entry.cur buf.length ∧ ZerosLast buf ∧
      (65024 ≤ entry.cur → BehindFirst s.disk fs old buf entry.cur) := by
  have bytes := holds.unique file.holds
  have length : old.length = size (s.disk.read entry.inodeBid) := by rw [bytes, List.length_map, List.length_range]
  have ready := healthy.ready here role file
  have covers := file.covers
  have few := ready.length_le
  constructor
  · intro stores
    obtain ⟨s', run, after, fit, one, stays, scan, reads⟩ := stores.parts index here ready holds free
    obtain ⟨own₁, s₁, fs', own', s'', resized, run', ready', stored⟩ := write_one index here ready one fit free
    obtain rfl := (Prod.mk.inj (Except.ok.inj (run.symm.trans run'))).2
    obtain ⟨out', s₂, read, taken⟩ := reads_back index ready' one fit stored stays scan (Nat.le_refl buf.length)
    obtain ⟨out₃, s₃, read', taken'⟩ := reads buf (Nat.le_refl _)
    obtain rfl : out' = out₃ := (Prod.mk.inj (Prod.mk.inj (Except.ok.inj (read.symm.trans read'))).2).1
    have same : padded buf = buf := taken.symm.trans taken'
    obtain ⟨frames, there⟩ := (write_holds_iff ready file one fit resized ready' stored bytes).mp after
    have covered := after.covers ready'.chain
    rw [length_writeAt] at covered
    refine ⟨one, (padded_eq_self_iff buf).mp same, fun late => ?_⟩
    rw [if_neg (by omega), same] at there
    rw [length] at frames
    have second := (read_scan_iff ready one fit resized ready' stored (by omega) (by omega) frames).mp ⟨stays, scan⟩ late
    rw [← length] at frames second
    exact ⟨frames, there.1, there.2, second⟩
  · rintro ⟨one, last, behind⟩
    have same := (padded_eq_self_iff buf).mpr last
    have frames : entry.cur + buf.length ≤ 65024 * framesOf old.length ∨
        old.length ≤ 65024 ∧ entry.cur + buf.length + 65023 < 4294967296 := by
      by_cases near : entry.cur < 65024
      · have some := one_le_framesOf old.length
        have bound := one.1
        omega
      · exact (behind (by omega)).frames
    have fit : entry.cur + buf.length < 4294967296 := by
      have old := framesOf_le_iff.mpr ⟨List.length_pos_iff.mpr ready.framed, covers⟩
      rw [← length] at old
      omega
    obtain ⟨own₁, s₁, fs', own', s', resized, run, ready', stored⟩ := write_one index here ready one fit free
    have after := (write_holds_iff ready file one fit resized ready' stored bytes).mpr ⟨frames, by
      split
      · exact same
      · rename_i late
        rw [same]
        exact ⟨(behind (by omega)).there, (behind (by omega)).twice⟩⟩
    have covered := after.covers ready'.chain
    rw [length_writeAt] at covered
    rw [length] at frames
    have scan := (read_scan_iff ready one fit resized ready' stored (by omega) (by omega) frames).mpr fun late => by
      rw [← length]
      exact (behind late).scan
    unfold WriteStores
    rw [here]
    refine ⟨old, s', holds, run, after, fun out room => ?_⟩
    obtain ⟨out', s₂, read, taken⟩ := reads_back index ready' one fit stored scan.1 scan.2 room
    exact ⟨_, out', s₂, sfsSeek_set index entry.cur, read, taken.trans same⟩

/-! ### One empty file -/

theorem oneFile_holds : FileHolds oneFile 3 [] := by
  have empty : size (oneFile.read 3) = 0 := by decide +kernel
  have holds := oneFile_ok.holds
  rwa [empty] at holds

/-- The empty file with the cursor behind its first frame. -/
def oneFileSought : State := { oneFileLoaded with fdtable := fun _ => ⟨oneFile.read 3, 3, 2, 65024, 1⟩ }

/-- In the first block, and behind the first frame a zero where the file had none. -/
theorem oneFile_stores : WriteStores oneFileLoaded 0 0 [97, 98] ∧ WriteStores oneFileSought 0 0 [0] := by
  have near := (blocksNeeded_le oneFileLoaded (oneFileLoaded.fdtable 0) 2 [4]).trans
    (Nat.le_trans (by decide +kernel) oneFile_free)
  have far := (blocksNeeded_le oneFileSought (oneFileSought.fdtable 0) 1 [4]).trans
    (Nat.le_trans (by decide +kernel) oneFile_free)
  have sought : Healthy oneFileOwners oneFileSought := oneFile_healthy.congr rfl rfl rfl
  refine ⟨(@write_stores_iff _ _ _ 0 0 [97, 98] _ _ oneFile_healthy rfl rfl rfl oneFile_ok oneFile_holds near).mpr ?_,
    (@write_stores_iff _ _ _ 0 0 [0] _ _ sought rfl rfl rfl oneFile_ok oneFile_holds far).mpr ?_⟩
  · exact ⟨by decide, (padded_eq_self_iff _).mp rfl, fun late => absurd late (by decide)⟩
  · exact ⟨by decide, (padded_eq_self_iff _).mp rfl, fun _ => ⟨.inr ⟨by decide, by decide⟩, by decide, by decide,
      .inl (by decide)⟩⟩

theorem inner_zero_lost : ¬ ∀ (own : Owners) (s : State) (fd : Int) (slot : Fin 32) (fs : List Nat) (buf : List UInt8),
    Healthy own s → fdIndex fd = .ok slot → Owners.role own (s.fdtable slot).inodeBid = some .inode →
    FileOk s.disk (s.fdtable slot).inodeBid fs →
    blocksNeeded s (s.fdtable slot) buf.length fs ≤ (s.disk.read 1).clearCount → WriteStores s fd slot buf := by
  intro claim
  have one : OneBlock 0 3 := by decide
  have free := (blocksNeeded_le oneFileLoaded (oneFileLoaded.fdtable 0) 3 [4]).trans
    (Nat.le_trans (by decide +kernel) oneFile_free)
  obtain ⟨old, s', before, run, after, -⟩ := claim oneFileOwners oneFileLoaded 0 0 [4] [97, 0, 98] oneFile_healthy rfl rfl
    oneFile_ok free
  have ready := @Healthy.ready _ _ _ 0 oneFile_healthy (oneFileLoaded.fdtable 0) rfl rfl oneFile_ok
  obtain ⟨own₁, s₁, fs', own', s'', resized, run', ready', stored⟩ := @write_one _ _ _ 0 0 [97, 0, 98] _ rfl rfl ready one
    (by decide) free
  obtain rfl := (Prod.mk.inj (Except.ok.inj (run.symm.trans run'))).2
  have same := (@write_holds_iff _ _ _ _ _ _ [97, 0, 98] _ _ _ _ _ ready oneFile_ok one (by decide) resized ready' stored
    (before.unique oneFile_ok.holds)).mp after
  rw [if_pos (by decide)] at same
  exact absurd same.2 (by decide)

end StorageStack.Sfs
