import StorageStack.Sfs.ReadOnly

/-!
# Where a read stops

`sfs_read` counts blocks and never looks at the size of the file: a read that returns says it read as many
bytes as were asked for. That is right when the request ends inside the file, and the code gets there when it
finds an entry for each block it counts, in the scan and again when it collects the ids.
-/

namespace StorageStack.Sfs
open Lib CString

variable {own : Owners} {s s' : State} {d d' : Image} {slot : Fin 32} {fs : List Nat} {f p n : Nat}

/-- `paddings`. -/
def Padded (sb : Block) : Prop := ∀ k, 4 ≤ k → k < 128 → sb.word k = 0

/-! ### Copying -/

/-- The cursor moves by what is copied, and all of it goes to the front of the buffer. -/
theorem readLoop_moves {bids : List Nat} {remaining offset cur : Nat} {buf : List UInt8} {r : Nat × List UInt8}
    (inBlock : offset < 512) (rest : remaining ≤ n) (run : readLoop d bids remaining offset cur buf = .ok r) :
    r.1 = (if remaining = 0 then cur else (cur + remaining) % 4294967296) ∧ r.2.drop n = buf.drop n := by
  induction bids generalizing remaining offset cur buf with
  | nil =>
    cases remaining with
    | zero =>
      obtain rfl := Except.ok.inj run
      exact ⟨rfl, rfl⟩
    | succ remaining => cases run
  | cons b bids ih =>
    cases remaining with
    | zero =>
      obtain rfl := Except.ok.inj run
      exact ⟨rfl, rfl⟩
    | succ remaining =>
      rw [readLoop] at run
      obtain ⟨bytes, copied, run⟩ := bind_ok run
      obtain ⟨buf', stored, run⟩ := bind_ok run
      have size := length_strncpy copied
      have shape := @toCopy_cases offset (remaining + 1) inBlock
      have front := drop_blit stored (show bytes.length ≤ n by omega)
      obtain ⟨moved, behind⟩ := ih (by decide) (by omega) run
      refine ⟨?_, behind.trans front⟩
      rw [moved, if_neg (Nat.succ_ne_zero _)]
      unfold toU32
      split <;> omega

/-! ### The walk and the chain -/

/-- Behind the frames of a file the walk visits block 0. -/
theorem scanEntry_chain (chain : Chain (frameNext d) f fs) (inside : p < 127 * (fs.length + 1)) :
    scanEntry d f p = entryAt d fs p := by
  induction fs generalizing f p with
  | nil =>
    obtain rfl : f = 0 := chain
    have head : p < 127 := by simpa using inside
    rw [scanEntry_head d 0 head, entryAt, Nat.mod_eq_of_lt head]
    rfl
  | cons g fs ih =>
    obtain ⟨rfl, -, rest⟩ := chain
    by_cases head : p < 127
    · rw [scanEntry_head d g head, entryAt_head head]
    · obtain ⟨q, rfl⟩ := Nat.exists_eq_add_of_le (show 127 ≤ p by omega)
      rw [scanEntry_tail, entryAt_tail]
      refine ih rest ?_
      rw [List.length_cons] at inside
      omega

/-- Entries without a hole do not reach past block 0. -/
theorem NoHoles.short (all : NoHoles d f 0 n) (chain : Chain (frameNext d) f fs) (padded : Padded (d.read 0)) :
    n ≤ 127 * fs.length + 3 := by
  by_contra long
  have named := all (127 * fs.length + 3) (Nat.zero_le _) (by omega)
  rw [scanEntry_chain chain (by omega), entryAt, List.getD_eq_getElem?_getD, List.getElem?_eq_none (by omega),
    Option.getD_none, show (127 * fs.length + 3) % 127 = 3 by omega] at named
  exact named (padded 4 (by decide) (by decide))

theorem NoHoles.congr (all : NoHoles d f 0 n) (chain : Chain (frameNext d) f fs) (padded : Padded (d.read 0))
    (frames : ∀ g ∈ fs, d'.read g = d.read g) (super : d'.read 0 = d.read 0) : NoHoles d' f 0 n := by
  have short := all.short chain padded
  have chain' : Chain (frameNext d') f fs := Chain.congr chain fun g member => by rw [frameNext, frameNext, frames g member]
  intro p low high
  rw [scanEntry_chain chain' (by omega), entryAt_congr frames super, ← scanEntry_chain chain (by omega)]
  exact all p low high

/-! ### Collecting -/

/-- From behind the first frame on only that frame gets new blocks. -/
theorem collect_behind {cap count remaining : Nat} (sound : Sound own s.disk) (loaded : nfreemapBlocks s.sb ≠ 0)
    (chain : Chain (frameNext s.disk) f (f :: fs)) (roles : ∀ g ∈ f :: fs, Owners.role own g = some .frame)
    (padded : Padded (s.disk.read 0)) (all : NoHoles s.disk f 127 n) (few : remaining ≤ n) (more : 0 < remaining)
    (inFrame : count < 127) (free : holes (s.disk.read f) count (visit remaining count) ≤ (s.disk.read 1).clearCount)
    (room : remaining ≤ cap) :
    ∃ ids s', frameLoop cap (remaining + 1) remaining count f [] s = .ok (ids, s') ∧ ids.length = remaining ∧
      s'.fdtable = s.fdtable := by
  have role := roles f (List.mem_cons_self ..)
  obtain ⟨-, -, rest⟩ := id chain
  obtain ⟨absent, -⟩ := List.nodup_cons.mp chain.nodup
  obtain ⟨own', s₁, frame, run, attached, next, -⟩ := @frameRound_ok own s cap remaining count f [] sound loaded role free
    (by simpa using room)
  have frames : ∀ g ∈ fs, (s₁.disk.write f frame).read g = s.disk.read g := by
    intro g member
    refine attached.grows.kept (owned_of_role (roles g (List.mem_cons_of_mem _ member))) fun same => ?_
    obtain rfl := List.mem_singleton.mp same
    exact absent member
  have super : (s₁.disk.write f frame).read 0 = s.disk.read 0 := by
    refine attached.grows.kept (by simp [sound.boot]) fun same => ?_
    exact sound.role_ne_zero role (by decide) (List.mem_singleton.mp same).symm
  have behind : NoHoles s.disk (nextFrame (s.disk.read f)) 0 (remaining - visit remaining count) :=
    fun p low high => noHoles_tail.mp all p low (by omega)
  have visited : 0 < visit remaining count ∧ visit remaining count ≤ remaining := by
    unfold visit SFS_FRAME_COUNT
    omega
  have first : frameLoop cap (remaining + 1) remaining count f [] s = frameLoop cap remaining
      (remaining - visit remaining count) 0 (nextFrame (s.disk.read f))
      ([] ++ (List.range' count (visit remaining count)).map (content frame)) { s₁ with disk := s₁.disk.write f frame } := by
    rw [frameLoop, if_neg (by omega), run, ok_bind]
    dsimp only
    rw [next]
  have idle := @frameLoop_idle { s₁ with disk := s₁.disk.write f frame } (nextFrame (s.disk.read f)) cap remaining
    (remaining - visit remaining count) 0 ([] ++ (List.range' count (visit remaining count)).map (content frame)) (by decide)
    (behind.congr rest padded frames super) (by omega)
    (by
      rw [List.nil_append, List.length_map, List.length_range']
      omega)
  refine ⟨_, _, first.trans idle, ?_, attached.grows.fdtable⟩
  rw [List.length_append, List.nil_append, List.length_map, List.length_map, List.length_range', List.length_range']
  omega

/-! ### The call -/

/-- The call returns how many bytes of the request are inside the file, moves the cursor by as many and
leaves the buffer behind them. -/
def StopsAtEnd (s : State) (fd : Int) (slot : Fin 32) (buf : List UInt8) (length : Nat) : Prop :=
  let entry := s.fdtable slot
  let k := min length (size (s.disk.read entry.inodeBid) - entry.cur)
  ∃ buf' s', sfsRead s fd buf length = .ok ((k : Nat), buf', s') ∧ (s'.fdtable slot).cur = entry.cur + k ∧
    buf'.drop k = buf.drop k

/-- The request ends inside the file and takes no more ids than the array holds, and the scan and the search
for the ids find an entry or a free block everywhere. -/
structure ReadFits (s : State) (slot : Fin 32) (length : Nat) : Prop where
  inside : length = 0 ∨ (s.fdtable slot).cur + length ≤ size (s.disk.read (s.fdtable slot).inodeBid)
  array : (s.fdtable slot).cur % 512 + length % 512 < 512
  stays : ¬ BreaksOff s.disk (firstFrameOf s slot) (s.fdtable slot).cur length
  scan : NoHoles s.disk (firstFrameOf s slot) (min ((s.fdtable slot).cur / 512) 127) (length / 512 + 1)
  free : 127 ≤ (s.fdtable slot).cur / 512 → holes (s.disk.read (firstFrameOf s slot)) ((s.fdtable slot).cur / 512 % 127)
    (visit (length / 512 + 1) ((s.fdtable slot).cur / 512 % 127)) ≤ (s.disk.read 1).clearCount

section
variable {fd : Int} {buf : List UInt8} {length : Nat}

theorem StopsAtEnd.fits (sound : Sound own s.disk) (loaded : nfreemapBlocks s.sb ≠ 0) (index : fdIndex fd = .ok slot)
    (role : Owners.role own (firstFrameOf s slot) = some .frame) (cursor : (s.fdtable slot).cur < 4294967296)
    (int : length < 2147483648) (stops : StopsAtEnd s fd slot buf length) : ReadFits s slot length := by
  obtain ⟨buf', s', run, moved, -⟩ := stops
  obtain ⟨count, ids, s₁, cur, parts⟩ := sfsRead_inv index cursor int run
  have whole : min length (size (s.disk.read (s.fdtable slot).inodeBid) - (s.fdtable slot).cur) = length := by
    have returned := parts.returned
    omega
  have array := parts.array
  have position := parts.position
  rw [whole, parts.state, setFd_self] at moved
  dsimp only at moved
  have copied := (readLoop_moves (Nat.mod_lt _ (by decide)) (Nat.le_refl _) parts.copy).1
  dsimp only at copied
  rcases @countBlocks_cases s.disk (firstFrameOf s slot) (s.fdtable slot).cur length (length / 512 + 2) (by omega)
    with ⟨breaks, run₀⟩ | ⟨stays, all, -⟩ | ⟨-, -, stuck⟩
  · -- The truncated request is never the whole one.
    obtain rfl := Except.ok.inj (run₀.symm.trans parts.scan)
    rw [if_pos (Nat.succ_pos _), moved] at copied
    split at copied <;> omega
  · refine ⟨by omega, by omega, stays, all, fun late => ?_⟩
    by_contra short
    have count' : ((s.fdtable slot).cur + length) / 512 - (s.fdtable slot).cur / 512 + 1 = length / 512 + 1 := by omega
    have stuck : frameLoop (length / 512 + 1) (length / 512 + 1 + 1) (length / 512 + 1) ((s.fdtable slot).cur / 512 % 127)
        (firstFrameOf s slot) [] s = .error .undefined := by
      rw [frameLoop, if_neg (Nat.succ_ne_zero _), contentLoop_short sound loaded (sound.frameOk role) (by omega), error_bind]
    have collect := parts.collect
    rw [count', stuck] at collect
    cases collect
  · cases stuck.symm.trans parts.scan

theorem ReadFits.collect {inode : Nat} (fits : ReadFits s slot length) (sound : Sound own s.disk)
    (loaded : nfreemapBlocks s.sb ≠ 0) (padded : Padded (s.disk.read 0)) (here : (s.fdtable slot).inodeBid = inode)
    (role : Owners.role own inode = some .inode) (framed : firstFrame (s.disk.read inode) ≠ 0) :
    ∃ ids s', frameLoop (length / 512 + 1) (length / 512 + 1 + 1) (length / 512 + 1) ((s.fdtable slot).cur / 512 % 127)
        (firstFrameOf s slot) [] s = .ok (ids, s') ∧ ids.length = length / 512 + 1 ∧ s'.fdtable = s.fdtable := by
  have scan := fits.scan
  by_cases late : 127 ≤ (s.fdtable slot).cur / 512
  · obtain ⟨fs, chain, -⟩ := sound.frameChain role
    obtain ⟨rest, rfl⟩ := FrameChain.first (s := s) chain framed
    have roles : ∀ g ∈ firstFrame (s.disk.read inode) :: rest, Owners.role own g = some .frame :=
      fun g member => (FrameChain.mem (s := s) chain sound role g member).1
    rw [Nat.min_eq_right late] at scan
    subst here
    exact collect_behind sound loaded chain roles padded scan (Nat.le_refl _) (Nat.succ_pos _) (Nat.mod_lt _ (by decide))
      (fits.free late) (Nat.le_refl _)
  · rw [Nat.min_eq_left (by omega)] at scan
    have start : (s.fdtable slot).cur / 512 % 127 = (s.fdtable slot).cur / 512 := Nat.mod_eq_of_lt (by omega)
    have idle := @frameLoop_idle s (firstFrameOf s slot) (length / 512 + 1) (length / 512 + 1 + 1) (length / 512 + 1)
      ((s.fdtable slot).cur / 512 % 127) [] (by omega) (by rw [start]; exact scan) (Nat.lt_succ_self _) (by simp)
    exact ⟨_, s, idle, by rw [List.nil_append, List.length_map, List.length_range'], rfl⟩

theorem ReadFits.stopsAtEnd {inode : Nat} (fits : ReadFits s slot length) (sound : Sound own s.disk)
    (loaded : nfreemapBlocks s.sb ≠ 0) (padded : Padded (s.disk.read 0)) (index : fdIndex fd = .ok slot)
    (here : (s.fdtable slot).inodeBid = inode) (role : Owners.role own inode = some .inode)
    (framed : firstFrame (s.disk.read inode) ≠ 0) (cursor : (s.fdtable slot).cur < 4294967296) (int : length < 2147483648)
    (source : length ≤ buf.length) : StopsAtEnd s fd slot buf length := by
  obtain ⟨ids, s₁, collect, some, table⟩ := fits.collect sound loaded padded here role framed
  have small := (s.disk.read (s.fdtable slot).inodeBid).word_lt 0
  have inside := fits.inside
  have array := fits.array
  unfold size at inside
  have position : (s.fdtable slot).cur + length < 4294967296 := by omega
  have bids : (numBids (length : Int)).toNat = length / 512 + 1 := numBids_nonneg (by omega)
  have cast : toU32 (length : Int) = length := toU32_natCast (by omega)
  have blocks : numBlocks (s.fdtable slot).cur length = length / 512 + 1 := by
    rw [numBlocks_nat position]
    omega
  obtain ⟨cur, buf', copied, -⟩ := @readLoop_ok s₁.disk ids length ((s.fdtable slot).cur % 512) (s.fdtable slot).cur buf
    (Nat.mod_lt _ (by decide)) (by omega) (by omega)
  obtain ⟨moved, behind⟩ := readLoop_moves (Nat.mod_lt _ (by decide)) (Nat.le_refl _) copied
  dsimp only at moved behind
  have run : sfsRead s fd buf length = .ok ((length : Nat), buf', s₁.setFd slot { s₁.fdtable slot with cur := cur }) := by
    rcases @countBlocks_cases s.disk (firstFrameOf s slot) (s.fdtable slot).cur length (length / 512 + 2) (by omega)
      with ⟨breaks, -⟩ | ⟨-, -, scan⟩ | ⟨-, hole, -⟩
    · exact absurd breaks fits.stays
    · have counted : countBlocks s.disk (length / 512 + 1)
          (((s.fdtable slot).cur / 65024 : Nat) - (((s.fdtable slot).cur + length) / 65024 : Nat) + 1) (length / 512 + 1 + 2)
          (firstFrame (s.disk.read (s.fdtable slot).inodeBid)) ((s.fdtable slot).cur / 512) 0 = .ok (length / 512 + 1) := scan
      have collected : sfsGetFileContent (length / 512 + 1) s slot (s.fdtable slot).cur length = .ok (ids, s₁) := by
        rw [sfsGetFileContent, blocks]
        exact collect
      rw [sfsRead, index, ok_bind]
      dsimp only
      rw [if_pos (by omega), bids, cast, toU32_add position, counted, ok_bind, collected, ok_bind, if_neg (Nat.lt_irrefl _)]
      dsimp only
      rw [Int.toNat_natCast, copied, ok_bind]
      split
      · rfl
      · rw [show length = 0 by omega]
        rfl
    · exact absurd fits.scan hole
  have whole : min length (size (s.disk.read (s.fdtable slot).inodeBid) - (s.fdtable slot).cur) = length := by
    unfold size
    omega
  refine ⟨buf', _, by rw [whole]; exact run, ?_, by rw [whole]; exact behind⟩
  rw [setFd_self, whole]
  dsimp only
  rw [moved]
  split <;> omega

/-- In every well-formed image a read of a file stops as it should exactly when the request fits. -/
theorem read_stops_iff (wf : WellFormed s.disk) (loaded : nfreemapBlocks s.sb = 1) (padded : Padded (s.disk.read 0))
    (index : fdIndex fd = .ok slot) (file : IsFile s.disk (s.fdtable slot).inodeBid)
    (cursor : (s.fdtable slot).cur < 4294967296) (int : length < 2147483648) (source : length ≤ buf.length) :
    StopsAtEnd s fd slot buf length ↔ ReadFits s slot length := by
  have sound := wf.sound
  have inode := file.role sound
  have frame := role_of_own (sound.firstFrame_owned inode (file.framed wf))
  have one : nfreemapBlocks s.sb ≠ 0 := by rw [loaded]; decide
  exact ⟨fun stops => stops.fits sound one index frame cursor int,
    fun fits => fits.stopsAtEnd sound one padded index rfl inode (file.framed wf) cursor int source⟩

end

/-- The only byte of a file. -/
theorem last_byte_stops : ∃ w, runAll Call.step oneWritten (World.start .initial) = .ok w ∧ StopsAtEnd w.state 0 0 [0] 1 := by
  obtain ⟨own, w, dirBid, run, one, healthy, file, -⟩ := oneWritten_file
  have cursor := one.cursor
  have padded : Padded (w.state.disk.read 0) := by
    intro k low high
    have zero := one.padding ⟨k - 4, by omega⟩
    rwa [show 4 + (k - 4) = k by omega] at zero
  refine ⟨w, run, (@read_stops_iff w.state 0 0 [0] 1 healthy.wellFormed healthy.coherent.nfreemapBlocks padded (fdIndex_val 0)
    file (by rw [cursor]; decide) (by decide) (Nat.le_refl _)).mpr
    ⟨.inr (by rw [cursor, one.bytes]), by rw [cursor]; decide, fun breaks => ?_, ?_, fun late => ?_⟩⟩
  · have late := breaks.1
    rw [cursor] at late
    exact absurd late (by decide)
  · rw [cursor]
    intro p low high
    obtain rfl : p = 0 := by omega
    rw [scanEntry_head _ _ (by decide)]
    exact one.entry
  · rw [cursor] at late
    exact absurd late (by decide)

/-- One byte of the empty file: the block is there, so the code says it read the byte. -/
theorem empty_file_overread : ∃ w, runAll Call.step oneListed (World.formatted .initial) = .ok w ∧
    ∀ buf, ¬ StopsAtEnd w.state 0 0 buf 1 := by
  obtain ⟨own, w, run, healthy, file, cursor, empty, -⟩ := oneListed_file
  refine ⟨w, run, fun buf stops => ?_⟩
  have role := role_of_own (healthy.sound.firstFrame_owned (file.role healthy.sound) (file.framed healthy.wellFormed))
  have fits := stops.fits healthy.sound healthy.coherent.loaded (fdIndex_val 0) role (by rw [cursor]; decide) (by decide)
  rcases fits.inside with none | inside
  · cases none
  · rw [cursor, empty] at inside
    exact absurd inside (by decide)

end StorageStack.Sfs
