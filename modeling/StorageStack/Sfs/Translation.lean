import StorageStack.Sfs.Calls
import StorageStack.Sfs.Transfer

/-!
# Logical blocks

Logical block `k` of a file is entry `k % 127` of frame `k / 127`. `sfs_get_file_content` takes the remainder
but always starts in the first frame, so it translates a range when the range starts there.
-/

namespace StorageStack.Sfs
open Lib

variable {own own' : Owners} {s s' : State} {d : Image} {fs : List Nat}

/-! ### Blocks that are marked but belong to nobody -/

/-- Marked blocks that nobody owns are claimed as data. -/
def claimed (own : Owners) (d : Image) : Owners := fun b =>
  (own b).or (if b < 4096 ∧ b ≠ 1 ∧ (d.read 1).bit b = true then some (.content b SFS_FRAME_COUNT) else none)

theorem claimed_of_own {b : Nat} {l : Loc} (h : own b = some l) : claimed own d b = some l := by
  rw [claimed, h, Option.some_or]

theorem Sound.claimed (sound : Sound own d) : Sound (claimed own d) d := by
  refine ⟨claimed_of_own sound.boot, ?_, sound.mapBit, fun {b l} owned => ?_, sound.refs.claim _ fun b l spare l' => ?_⟩
  · rw [Sfs.claimed, sound.map, Option.none_or, if_neg fun h => h.2.1 rfl]
  · unfold Sfs.claimed at owned
    rcases Option.or_eq_some_iff.mp owned with before | ⟨-, spare⟩
    · exact sound.marked before
    · split at spare
      · rename_i marked
        exact ⟨marked.1, marked.2.2⟩
      · cases spare
  · split at spare
    · obtain rfl := Option.some.inj spare
      exact hostKind_ne_data l'
    · cases spare

theorem clear_of_unclaimed {b : Nat} (hb : b < 4096) (notMap : b ≠ 1) (free : claimed own d b = none) :
    (d.read 1).bit b = false := by
  by_contra set
  unfold claimed at free
  rw [Option.or_eq_none_iff, if_pos ⟨hb, notMap, Bool.not_eq_false _ ▸ set⟩] at free
  cases free.2

theorem role_claimed {b : Nat} {k : Kind} (h : Owners.role own b = some k) : Owners.role (claimed own d) b = some k := by
  obtain ⟨l, owned, same⟩ := Scheme.role_eq_some h
  exact same ▸ role_of_own (claimed_of_own owned)

/-! ### Too few free blocks -/

theorem fillEntry_short {frame : Block} {j : Nat} (loaded : nfreemapBlocks s.sb ≠ 0) (hole : content frame j = 0)
    (full : (s.disk.read 1).clearCount = 0) : fillEntry frame j s = .error .undefined := by
  rw [fillEntry, if_pos hole, sfsAllocBlock_full loaded full, error_bind]

theorem contentLoop_short {cap remaining count f : Nat} {frame : Block} {bids : List Nat} (sound : Sound own s.disk)
    (loaded : nfreemapBlocks s.sb ≠ 0) (ok : FrameOk own f frame)
    (short : (s.disk.read 1).clearCount < holes frame count (visit remaining count)) :
    contentLoop cap remaining count frame bids s = .error .undefined := by
  induction remaining generalizing own s frame count bids with
  | zero => simp [visit, holes] at short
  | succ remaining ih =>
    by_cases hj : count < SFS_FRAME_COUNT
    · have step : visit (remaining + 1) count = visit remaining (count + 1) + 1 := by unfold visit; omega
      have one : holes frame count 1 = if content frame count = 0 then 1 else 0 := by
        rw [holes_succ]; simp [holes]
      rw [contentLoop, if_pos hj]
      by_cases full : content frame count = 0 ∧ (s.disk.read 1).clearCount = 0
      · rw [fillEntry_short loaded full.1 full.2, error_bind]
      · rw [step, holes_succ] at short
        obtain ⟨own₁, s₁, frame₁, run₁, filled₁, count₁⟩ := fillEntry_ok sound loaded ok hj (by rw [one]; split <;> omega)
        have later : holes frame₁ (count + 1) (visit remaining (count + 1)) = holes frame (count + 1)
            (visit remaining (count + 1)) :=
          holes_congr fun j low _ => filled₁.outside j (by omega)
        rw [run₁, ok_bind]
        dsimp only
        split
        · exact ih filled₁.sound (by rw [filled₁.grows.sb]; exact loaded) filled₁.ok (by rw [later]; omega)
        · rfl
    · have none : visit (remaining + 1) count = 0 := by unfold visit; omega
      rw [none] at short
      simp [holes] at short

theorem frameLoop_short {cap fuel remaining count frameBid : Nat} {bids : List Nat} (sound : Sound own s.disk)
    (loaded : nfreemapBlocks s.sb ≠ 0) (chain : Chain (frameNext s.disk) frameBid fs)
    (roles : ∀ f ∈ fs, Owners.role own f = some .frame) (inFrame : count < 127)
    (inside : count + remaining ≤ 127 * fs.length) (enough : remaining < fuel)
    (short : (s.disk.read 1).clearCount < holesAt s.disk fs count remaining) (room : bids.length + remaining ≤ cap) :
    frameLoop cap fuel remaining count frameBid bids s = .error .undefined := by
  induction fs generalizing own s count remaining frameBid bids fuel with
  | nil =>
    obtain rfl : remaining = 0 := by simp at inside; omega
    simp [holesAt] at short
  | cons f fs ih =>
    obtain ⟨fuel, rfl⟩ := Nat.exists_eq_succ_of_ne_zero (by omega : fuel ≠ 0)
    have more : remaining ≠ 0 := by
      intro done
      simp [holesAt, done] at short
    obtain ⟨rfl, named, rest⟩ := id chain
    have role := roles f (List.mem_cons_self ..)
    obtain ⟨absent, -⟩ := List.nodup_cons.mp chain.nodup
    rw [holesAt_cons inFrame] at short
    rw [frameLoop, if_neg more]
    by_cases first : holes (s.disk.read f) count (visit remaining count) ≤ (s.disk.read 1).clearCount
    · obtain ⟨own₁, s₁, frame, run₁, round, next, filled, count₁⟩ := @frameRound_ok own s cap remaining count f bids
        sound loaded role first room
      have keep : ∀ g ∈ fs, (s₁.disk.write f frame).read g = s.disk.read g := by
        intro g member
        apply round.grows.kept (owned_of_role (roles g (List.mem_cons_of_mem _ member)))
        intro same
        obtain rfl := List.mem_singleton.mp same
        exact absent member
      have fits : remaining - visit remaining count = 0 ∨ 0 + (remaining - visit remaining count) ≤ 127 * fs.length := by
        unfold visit SFS_FRAME_COUNT
        simp only [List.length_cons] at inside
        omega
      rcases fits with done | fits
      · rw [done] at short
        simp [holesAt] at short
        omega
      rw [run₁, ok_bind]
      dsimp only
      refine ih round.sound (by rw [round.grows.sb]; exact loaded) ?_
        (fun g member => round.grows.role (roles g (List.mem_cons_of_mem _ member))) (by decide) fits
        (by unfold visit SFS_FRAME_COUNT; omega) ?_ ?_
      · rw [next]
        exact Chain.congr rest fun g member => by rw [frameNext, frameNext, keep g member]
      · dsimp only
        rw [holesAt_congr keep fits]
        omega
      · rw [List.length_append, List.length_map, List.length_range']
        unfold visit
        omega
    · rw [contentLoop_short sound loaded (sound.frameOk role) (by omega), error_bind]

/-! ### The translation -/

/-- The logical blocks a request touches, as the code counts them. -/
def logicalBlocks (cur length : Nat) : List Nat := List.range' (cur / 512) ((cur + length) / 512 - cur / 512 + 1)

/-- The ids are those of the logical blocks of the request, and exactly its holes were filled. -/
structure Translates (fs : List Nat) (cur length : Nat) (s : State) (ids : List Nat) (s' : State) : Prop where
  ids : ids = (logicalBlocks cur length).map (entryAt s'.disk fs)
  filled : ∀ p ∈ logicalBlocks cur length, entryAt s'.disk fs p ≠ 0
  kept : ∀ p < 127 * fs.length, p ∉ logicalBlocks cur length ∨ entryAt s.disk fs p ≠ 0 →
    entryAt s'.disk fs p = entryAt s.disk fs p
  clear : ∀ p ∈ logicalBlocks cur length, entryAt s.disk fs p = 0 →
    entryAt s'.disk fs p < 4096 ∧ (s.disk.read 1).bit (entryAt s'.disk fs p) = false
  bits : ∀ b < 4096, (s'.disk.read 1).bit b = true ↔ (s.disk.read 1).bit b = true ∨
    ∃ p ∈ logicalBlocks cur length, entryAt s.disk fs p = 0 ∧ entryAt s'.disk fs p = b
  distinct : ∀ p q, p < 127 * fs.length → q < 127 * fs.length → entryAt s'.disk fs p ≠ 0 →
    entryAt s'.disk fs p = entryAt s'.disk fs q → p = q

theorem Attached.newly_set (attached : Attached fs own s own' s') (sound : Sound own s.disk)
    (roles : ∀ f ∈ fs, Owners.role own f = some .frame) (owned : ∀ b < 4096, b ≠ 1 → own b = none → (s.disk.read 1).bit b = false)
    {b : Nat} (hb : b < 4096) : (s.disk.read 1).bit b = false ∧ (s'.disk.read 1).bit b = true ↔
      ∃ p < 127 * fs.length, entryAt s.disk fs p = 0 ∧ entryAt s'.disk fs p = b ∧ b ≠ 0 := by
  constructor
  · rintro ⟨clear, set⟩
    have free := sound.free_of_clear clear
    rcases (attached.grows.bits b hb).mp set with before | ⟨-, used⟩
    · rw [clear] at before
      cases before
    obtain ⟨-, f, member, j, hj, -, entry⟩ := attached.fresh b free used
    obtain ⟨i, hi, rfl⟩ := List.getElem_of_mem member
    have place : ∀ d : Image, entryAt d fs (127 * i + j) = content (d.read fs[i]) j := fun d => by
      unfold SFS_FRAME_COUNT at hj
      rw [entryAt, show (127 * i + j) / 127 = i by omega, show (127 * i + j) % 127 = j by omega,
        List.getD_eq_getElem?_getD, List.getElem?_eq_getElem hi, Option.getD_some]
    refine ⟨127 * i + j, by unfold SFS_FRAME_COUNT at hj; omega, ?_, (place _).trans entry, sound.clear_ne_zero clear⟩
    rw [place]
    rcases attached.entry _ member j with same | ⟨hole, -⟩
    · by_contra named
      have holder := sound.content_owned (roles _ member) hj named
      rw [← same, entry, free] at holder
      cases holder
    · exact hole
  · rintro ⟨p, inside, hole, entry, named⟩
    obtain ⟨f, member, place⟩ := entryAt_mem inside
    rw [place] at hole entry
    have new : own b = none := by
      rcases attached.entry f member (p % 127) with same | ⟨-, new⟩
      · exact absurd (entry.symm.trans (same.trans hole)) named
      · rwa [entry] at new
    have holder := attached.sound.content_owned (attached.grows.role (roles f member))
      (show p % 127 < SFS_FRAME_COUNT from Nat.mod_lt _ (by decide)) (by rwa [entry])
    rw [entry] at holder
    have used : own' b ≠ none := by simp [holder]
    exact ⟨owned b hb (attached.sound.ne_one used) new, (attached.grows.bits b hb).mpr (.inr ⟨new, used⟩)⟩

section
variable {cap cur length inode : Nat} {fd : Fin 32}

theorem FrameChain.length_le (chain : FrameChain d inode fs) (sound : Sound own d)
    (role : Owners.role own inode = some .inode) : fs.length ≤ 4096 := by
  obtain ⟨ids, walk, short, -⟩ := sound.frameChain role
  rw [Chain.unique chain walk]
  exact short

theorem lt_of_mem_logicalBlocks (covers : (cur + length) / 512 / 127 < fs.length) {p : Nat}
    (member : p ∈ logicalBlocks cur length) : p < 127 * fs.length := by
  have high := (List.mem_range'_1.mp member).2
  omega

theorem numBlocks_covered (covers : (cur + length) / 512 / 127 < fs.length) (short : fs.length ≤ 4096) :
    numBlocks cur length = (cur + length) / 512 - cur / 512 + 1 :=
  numBlocks_nat (by omega)

theorem collect_covered (sound : Sound own s.disk) (loaded : nfreemapBlocks s.sb ≠ 0) (here : (s.fdtable fd).inodeBid = inode)
    (role : Owners.role own inode = some .inode) (chain : FrameChain s.disk inode fs)
    (covers : (cur + length) / 512 / 127 < fs.length) (room : (cur + length) / 512 - cur / 512 + 1 ≤ cap)
    {ids : List Nat} (run : sfsGetFileContent cap s fd cur length = .ok (ids, s')) :
    holesAt s.disk fs (cur / 512 % 127) ((cur + length) / 512 - cur / 512 + 1) ≤ (s.disk.read 1).clearCount := by
  by_contra short
  have count := numBlocks_covered covers (chain.length_le sound role)
  have stuck : sfsGetFileContent cap s fd cur length = .error .undefined := by
    rw [sfsGetFileContent, here, count]
    exact @frameLoop_short own s fs cap _ _ (cur / 512 % 127) _ [] sound loaded chain
      (fun f m => (chain.mem sound role f m).1) (Nat.mod_lt _ (by decide)) (by omega) (Nat.lt_succ_self _) (by omega)
      (by simpa using room)
  rw [stuck] at run
  cases run

/-- A range that starts in the first frame is translated when there are blocks for its holes. -/
theorem translates_ok (sound : Sound own s.disk) (loaded : nfreemapBlocks s.sb ≠ 0) (here : (s.fdtable fd).inodeBid = inode)
    (role : Owners.role own inode = some .inode) (chain : FrameChain s.disk inode fs)
    (covers : (cur + length) / 512 / 127 < fs.length) (room : (cur + length) / 512 - cur / 512 + 1 ≤ cap)
    (start : cur / 512 < 127)
    (free : holesAt s.disk fs (cur / 512) ((cur + length) / 512 - cur / 512 + 1) ≤ (s.disk.read 1).clearCount) :
    ∃ ids s', sfsGetFileContent cap s fd cur length = .ok (ids, s') ∧ Translates fs cur length s ids s' := by
  have count := numBlocks_covered covers (chain.length_le sound role)
  have mod : cur / 512 % 127 = cur / 512 := Nat.mod_eq_of_lt start
  have role' : Owners.role (claimed own s.disk) inode = some .inode := role_claimed role
  have roles : ∀ f ∈ fs, Owners.role (claimed own s.disk) f = some .frame :=
    fun f m => (chain.mem sound.claimed role' f m).1
  have owned : ∀ b < 4096, b ≠ 1 → claimed own s.disk b = none → (s.disk.read 1).bit b = false :=
    fun b hb other free => clear_of_unclaimed hb other free
  have nodup : fs.Nodup := Chain.nodup chain
  obtain ⟨own', s', run, attached, filled, outside, -⟩ := sfsGetFileContent_ok cap fd cur length sound.claimed loaded here
    role' chain (by rw [count]; omega) (by rwa [count, mod]) (by omega)
  rw [mod, count] at run filled outside
  have roles' : ∀ f ∈ fs, Owners.role own' f = some .frame := fun f m => attached.grows.role (roles f m)
  have inside : ∀ p ∈ logicalBlocks cur length, p < 127 * fs.length := fun p => lt_of_mem_logicalBlocks covers
  have filled' : ∀ p ∈ logicalBlocks cur length, entryAt s'.disk fs p ≠ 0 := by
    intro p member
    obtain ⟨low, high⟩ := List.mem_range'_1.mp member
    exact filled p low high
  have small : ∀ p ∈ logicalBlocks cur length, entryAt s'.disk fs p < 4096 := by
    intro p member
    obtain ⟨f, -, holder⟩ := entryAt_owned attached.sound roles' (inside p member) (filled' p member)
    exact attached.sound.lt (by simp [holder])
  refine ⟨_, s', run, rfl, filled', fun p hp kept => ?_, fun p member hole => ?_, fun b hb => ?_, fun p q hp hq named same =>
    entryAt_inj attached.sound roles' nodup hp hq named same⟩
  · rcases kept with behind | named
    · exact outside p hp fun range => behind (List.mem_range'_1.mpr range)
    · obtain ⟨f, member, place⟩ := entryAt_mem hp
      rw [place] at named
      rw [place, place]
      exact (attached.entry f member (p % 127)).resolve_right fun hole => named hole.1
  · have lt := small p member
    exact ⟨lt, ((attached.newly_set sound.claimed roles owned lt).mpr ⟨p, inside p member, hole, rfl, filled' p member⟩).1⟩
  · constructor
    · intro set
      cases before : (s.disk.read 1).bit b with
      | true => exact .inl rfl
      | false =>
        obtain ⟨p, hp, hole, entry, nonzero⟩ := (attached.newly_set sound.claimed roles owned hb).mp ⟨before, set⟩
        refine .inr ⟨p, List.mem_range'_1.mpr ?_, hole, entry⟩
        by_contra behind
        exact nonzero (entry.symm.trans ((outside p hp behind).trans hole))
    · intro set
      rcases set with before | ⟨p, member, hole, rfl⟩
      · exact (attached.grows.bits b hb).mpr (.inl before)
      · exact ((attached.newly_set sound.claimed roles owned hb).mpr
          ⟨p, inside p member, hole, rfl, filled' p member⟩).2

/-- The first id is entry `cur / 512 % 127` of the first frame, whatever frame the position is in. -/
theorem Translates.start (sound : Sound own s.disk) (loaded : nfreemapBlocks s.sb ≠ 0)
    (here : (s.fdtable fd).inodeBid = inode) (role : Owners.role own inode = some .inode) (chain : FrameChain s.disk inode fs)
    (covers : (cur + length) / 512 / 127 < fs.length) (room : (cur + length) / 512 - cur / 512 + 1 ≤ cap)
    {ids : List Nat} (run : sfsGetFileContent cap s fd cur length = .ok (ids, s')) (translates : Translates fs cur length s ids s') :
    cur / 512 < 127 := by
  have free := collect_covered sound loaded here role chain covers room run
  have count := numBlocks_covered covers (chain.length_le sound role)
  obtain ⟨own', s₁, run₁, attached, filled, -⟩ := sfsGetFileContent_ok cap fd cur length sound loaded here role chain
    (by rw [count]; omega) (by rwa [count]) (by omega)
  rw [run, count] at run₁
  obtain ⟨same, rfl⟩ := Prod.mk.inj (Except.ok.inj run₁)
  rw [translates.ids, logicalBlocks, List.range'_succ, List.range'_succ, List.map_cons, List.map_cons] at same
  have first := (List.cons.inj same).1
  have named := filled (cur / 512 % 127) (Nat.le_refl _) (by rw [count]; omega)
  have apart := translates.distinct (cur / 512 % 127) (cur / 512) (by omega) (by omega) named first.symm
  omega

theorem Translates.free {ids : List Nat} (translates : Translates fs cur length s ids s')
    (covers : (cur + length) / 512 / 127 < fs.length) :
    holesAt s.disk fs (cur / 512) ((cur + length) / 512 - cur / 512 + 1) ≤ (s.disk.read 1).clearCount := by
  have inside : ∀ p ∈ logicalBlocks cur length, p < 127 * fs.length := fun p => lt_of_mem_logicalBlocks covers
  let holesOf := ((logicalBlocks cur length).filter (entryAt s.disk fs · = 0)).toFinset
  have card : holesOf.card = holesAt s.disk fs (cur / 512) ((cur + length) / 512 - cur / 512 + 1) :=
    List.toFinset_card_of_nodup (List.Nodup.filter _ (List.nodup_range' ..))
  rw [← card]
  refine Finset.card_le_card_of_injOn (entryAt s'.disk fs) (fun p member => ?_) fun p hp q hq same => ?_
  · obtain ⟨range, hole⟩ := List.mem_filter.mp (List.mem_toFinset.mp member)
    obtain ⟨lt, clear⟩ := translates.clear p range (of_decide_eq_true hole)
    exact Finset.mem_coe.mpr (Finset.mem_filter.mpr ⟨Finset.mem_range.mpr lt, clear⟩)
  · have range := (List.mem_filter.mp (List.mem_toFinset.mp hp)).1
    have range' := (List.mem_filter.mp (List.mem_toFinset.mp hq)).1
    exact translates.distinct p q (inside p range) (inside q range') (translates.filled p range) same

/-- The request is translated exactly when it starts in the first frame and there is a block for every hole. -/
theorem get_file_content_translates_iff (wf : WellFormed s.disk) (loaded : nfreemapBlocks s.sb = 1) (file : IsFile s.disk inode)
    (here : (s.fdtable fd).inodeBid = inode) (chain : FrameChain s.disk inode fs)
    (covers : (cur + length) / 512 / 127 < fs.length) (room : (cur + length) / 512 - cur / 512 + 1 ≤ cap) :
    (∃ ids s', sfsGetFileContent cap s fd cur length = .ok (ids, s') ∧ Translates fs cur length s ids s') ↔
      cur / 512 < 127 ∧
        holesAt s.disk fs (cur / 512) ((cur + length) / 512 - cur / 512 + 1) ≤ (s.disk.read 1).clearCount := by
  have sound := wf.sound
  have role := file.role sound
  have one : nfreemapBlocks s.sb ≠ 0 := by rw [loaded]; decide
  constructor
  · intro ⟨ids, s', run, translates⟩
    exact ⟨translates.start sound one here role chain covers room run, translates.free covers⟩
  · intro ⟨start, free⟩
    exact translates_ok sound one here role chain covers room start free

end

/-! ### A file with two frames -/

theorem oneFile_free : 4064 ≤ (oneFile.read 1).clearCount := by
  have count : 8 * 512 ≤ (oneFile.read 1).clearCount + 32 := Bytes.le_clearCount_of_words fun k _ other => by
    rw [read_oneFile (by decide)]
    exact (Bytes.word_setWord_of_ne _ other).trans (Bytes.word_zero k)
  omega

/-- The file with a second frame: the entries of the first one are zero, those of the second one are not. -/
structure TwoFrames (own : Owners) (s : State) (f : Nat) : Prop where
  healthy : Healthy own s
  role : Owners.role own 3 = some .inode
  file : IsFile s.disk 3
  entry : (s.fdtable 0).inodeBid = 3
  chain : FrameChain s.disk 3 [4, f]
  size : size (s.disk.read 3) = 65536
  empty : ∀ j, content (s.disk.read 4) j = 0
  full : ∀ j < SFS_FRAME_COUNT, content (s.disk.read f) j ≠ 0
  free : (s.disk.read 1).clearCount + 128 = (oneFile.read 1).clearCount

theorem grown_file : ∃ own s f, sfsResizeFile oneFileLoaded 0 65536 = .ok s ∧ TwoFrames own s f := by
  have healthy := oneFile_healthy
  have role : Owners.role oneFileOwners 4 = some .frame := rfl
  have inode : Owners.role oneFileOwners 3 = some .inode := rfl
  have room := oneFile_free
  obtain ⟨f, own, s₁, run, linked, count⟩ := growFrame_ok healthy.sound healthy.coherent.loaded role
    (show 128 ≤ (oneFile.read 1).clearCount by omega)
  have first : firstFrame (oneFileLoaded.disk.read 3) = 4 := oneFile_ok.chain.1.symm
  have missing : (newFrames 65536 - oldFrames (size (oneFileLoaded.disk.read 3))).toNat = 1 := by decide +kernel
  have inFile : InFile oneFileOwners 3 4 := .firstFrame rfl
  have grows := linked.grows.mono fun b (same : b = 4) => show InFile oneFileOwners 3 b by rw [same]; exact inFile
  have file := FileGrows.setSize (n := 65536) linked.sound inode grows linked.inodes
  have healthy' := file.healthy healthy inode
  obtain ⟨-, -, next⟩ := linked.chain fun none => by cases none
  have fRole := linked.roles f (List.mem_singleton_self f)
  have roleAfter : ∀ b, Owners.role own b = some .frame → b < 4096 ∧ b ≠ 3 := by
    intro b used
    refine ⟨linked.sound.role_lt used, ?_⟩
    rintro rfl
    rw [linked.grows.role inode] at used
    cases used
  obtain ⟨fSmall, fOther⟩ := roleAfter f fRole
  have keep : ∀ b < 4096, b ≠ 3 → (s₁.disk.write 3 (setSize (oneFileLoaded.disk.read 3) 65536)).read b = s₁.disk.read b :=
    fun b hb other => Image.read_write_of_ne _ _ (by omega)
  refine ⟨own, _, f, ?_, healthy', linked.grows.role inode, ?_, ?_, ⟨?_, by decide, ?_⟩, ?_, fun j => ?_, fun j hj => ?_, ?_⟩
  · rw [sfsResizeFile]
    show (growFrames (newFrames 65536 - oldFrames (size (oneFileLoaded.disk.read 3))).toNat
      (firstFrame (oneFileLoaded.disk.read 3)) oneFileLoaded >>= _) = _
    rw [missing, first, growFrames, run, ok_bind]
    rfl
  · have super : (s₁.disk.write 3 (setSize (oneFileLoaded.disk.read 3) 65536)).read 0 = oneFile.read 0 :=
      (keep 0 (by decide) (by decide)).trans (linked.grows.kept (by decide) (by decide))
    have dir : (s₁.disk.write 3 (setSize (oneFileLoaded.disk.read 3) 65536)).read 2 = oneFile.read 2 :=
      (keep 2 (by decide) (by decide)).trans (linked.grows.kept (by decide) (by decide))
    refine @isFile_of_slot _ 2 3 0 ?_ ?_ (by decide) (by decide) (by decide)
    · show firstDir ((s₁.disk.write 3 _).read 0) = 2
      rw [super]
      decide +kernel
    · show inodes ((s₁.disk.write 3 _).read 2) 0 = 3
      rw [dir]
      decide +kernel
  · show (s₁.fdtable 0).inodeBid = 3
    rw [linked.grows.fdtable]
    rfl
  · show 4 = firstFrame ((s₁.disk.write 3 _).read 3)
    rw [Image.read_write, firstFrame_setSize, first]
  · show Chain _ (nextFrame ((s₁.disk.write 3 _).read 4)) [f]
    dsimp only
    rw [keep 4 (by decide) (by decide)]
    exact ⟨next.1, next.2.1, by show nextFrame ((s₁.disk.write 3 _).read f) = 0; rw [keep f fSmall fOther]; exact next.2.2⟩
  · show size ((s₁.disk.write 3 _).read 3) = 65536
    rw [Image.read_write, size_setSize (by decide)]
  · show content ((s₁.disk.write 3 _).read 4) j = 0
    rw [keep 4 (by decide) (by decide), linked.entry j]
    show content (oneFile.read 4) j = 0
    rw [read_oneFile (by decide)]
    exact Bytes.word_zero _
  · show content ((s₁.disk.write 3 _).read f) j ≠ 0
    rw [keep f fSmall fOther]
    exact (linked.full f (List.mem_singleton_self f) j hj).1
  · show ((s₁.disk.write 3 _).read 1).clearCount + 128 = _
    rw [keep 1 (by decide) (by decide)]
    exact count

/-- Position 65024 is in the second frame, its first id comes from the first one. -/
theorem second_frame_mistranslated : ¬ ∀ (s : State) (fd : Fin 32) (inode : Nat) (fs : List Nat) (cap cur length : Nat),
    WellFormed s.disk → nfreemapBlocks s.sb = 1 → IsFile s.disk inode → (s.fdtable fd).inodeBid = inode →
    FrameChain s.disk inode fs → (cur + length) / 512 / 127 < fs.length → (cur + length) / 512 - cur / 512 + 1 ≤ cap →
    ∃ ids s', sfsGetFileContent cap s fd cur length = .ok (ids, s') ∧ Translates fs cur length s ids s' := by
  intro claim
  obtain ⟨own, s, f, -, two⟩ := grown_file
  have covers : (65024 + 0) / 512 / 127 < [4, f].length := Nat.lt_succ_self 1
  obtain ⟨ids, s', run, translates⟩ := claim s 0 3 [4, f] 1 65024 0 two.healthy.wellFormed
    two.healthy.coherent.nfreemapBlocks two.file two.entry two.chain covers (by decide)
  have start := translates.start two.healthy.sound two.healthy.coherent.loaded two.entry two.role two.chain covers
    (by decide) run
  exact absurd start (by decide)

/-- The first block of the empty file. -/
theorem first_block_translated : ∃ ids s', sfsGetFileContent 1 oneFileLoaded 0 0 0 = .ok (ids, s') ∧
    Translates [4] 0 0 oneFileLoaded ids s' := by
  refine (@get_file_content_translates_iff oneFileLoaded [4] 1 0 0 3 0 oneFile_wellFormed
    oneFile_healthy.coherent.nfreemapBlocks oneFile_isFile rfl oneFile_ok.chain (by decide) (by decide)).mpr ⟨by decide, ?_⟩
  exact (holesAt_le _ _ _ _).trans (Nat.le_trans (by decide) oneFile_free)

end StorageStack.Sfs
