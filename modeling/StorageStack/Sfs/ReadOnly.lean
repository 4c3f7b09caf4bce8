import StorageStack.Sfs.ReadEnds
import StorageStack.Sfs.RemoveDir
import StorageStack.Sfs.Translation

/-!
# When a read changes the image

`sfs_read` looks its blocks up as a write does, starting in the first frame, and its scan looks at other
entries once the cursor is behind that frame. A hole it meets in the first frame then gets a block, and
nothing later in the call takes it away; without one nothing changes but the cursor.
-/

namespace StorageStack.Sfs
open Lib CString

variable {own : Owners} {s s' : State} {d d' : Image} {f j : Nat} {slot : Fin 32}

/-! ### Without holes -/

theorem contentLoop_idle {cap remaining count : Nat} {frame : Block} {bids : List Nat} (room : bids.length + remaining ≤ cap)
    (named : ∀ j, count ≤ j → j < count + visit remaining count → content frame j ≠ 0) :
    contentLoop cap remaining count frame bids s = .ok ⟨frame,
      bids ++ (List.range' count (visit remaining count)).map (content frame), remaining - visit remaining count, s⟩ := by
  induction remaining generalizing count bids with
  | zero =>
    rw [contentLoop, visit, Nat.zero_min]
    simp
  | succ remaining ih =>
    rw [contentLoop]
    by_cases inside : count < SFS_FRAME_COUNT
    · have step : visit (remaining + 1) count = visit remaining (count + 1) + 1 := by
        unfold visit
        omega
      have store : bids.length < cap := by omega
      have later := @ih (count + 1) (bids ++ [content frame count]) (by rw [List.length_append, List.length_singleton]; omega)
        fun j low high => named j (by omega) (by omega)
      rw [if_pos inside, fillEntry, if_neg (named count (Nat.le_refl _) (by omega)), ok_bind]
      dsimp only
      rw [if_pos store, later, step, List.range'_succ, List.map_cons, List.append_assoc]
      congr 2
      omega
    · have none : visit (remaining + 1) count = 0 := by
        unfold visit
        omega
      rw [if_neg inside, none]
      simp

/-- The loop over the frames writes back what it read. -/
theorem frameLoop_idle {cap fuel remaining count : Nat} {bids : List Nat} (inFrame : count < 127)
    (named : NoHoles s.disk f count remaining) (enough : remaining < fuel) (room : bids.length + remaining ≤ cap) :
    frameLoop cap fuel remaining count f bids s =
      .ok (bids ++ (List.range' count remaining).map (scanEntry s.disk f), s) := by
  induction fuel generalizing remaining count f bids with
  | zero => omega
  | succ fuel ih =>
    rw [frameLoop]
    by_cases done : remaining = 0
    · rw [if_pos done, done, List.range'_zero, List.map_nil, List.append_nil]
    · obtain ⟨visited, rest⟩ := (noHoles_cons (by omega)).mp named
      have entries : (List.range' count (visit remaining count)).map (content (s.disk.read f)) =
          (List.range' count (visit remaining count)).map (scanEntry s.disk f) := by
        refine List.map_congr_left fun j member => ?_
        have high := (List.mem_range'_1.mp member).2
        unfold visit SFS_FRAME_COUNT at high
        exact (scanEntry_head _ _ (by omega)).symm
      have stay := @contentLoop_idle s cap remaining count (s.disk.read f) bids room visited
      rw [if_neg done, stay, ok_bind]
      dsimp only
      rw [Image.write_read, entries]
      have later := @ih (nextFrame (s.disk.read f)) (remaining - visit remaining count) 0
        (bids ++ (List.range' count (visit remaining count)).map (scanEntry s.disk f)) (by decide) rest
        (by unfold visit SFS_FRAME_COUNT; omega)
        (by
          rw [List.length_append, List.length_map, List.length_range']
          unfold visit
          omega)
      have tail : (List.range' 0 (remaining - visit remaining count)).map (scanEntry s.disk (nextFrame (s.disk.read f))) =
          (List.range' (count + visit remaining count) (remaining - visit remaining count)).map (scanEntry s.disk f) := by
        rw [range'_later inFrame, List.map_map]
        exact List.map_congr_left fun p _ => (scanEntry_tail _ _ p).symm
      rw [show ({ s with disk := s.disk } : State) = s from rfl, later, tail, List.append_assoc, ← List.map_append,
        ← range'_visit]

/-! ### With a hole -/

/-- A step that fills a block keeps the words that are not zero. -/
def Refilled (before after : Block) : Prop := ∀ k, before.word k ≠ 0 → after.word k = before.word k

theorem Refilled.bit {before after : Block} {b : Nat} (h : Refilled before after) (set : before.bit b = true) :
    after.bit b = true := by
  rw [Bytes.bit] at set ⊢
  rwa [h (b / 32) fun zero => by rw [zero, Nat.zero_testBit] at set; cases set]

/-- Entry `j` of frame `f` names a block, and neither the frame nor the freemap is free. -/
structure Pinned (d : Image) (f j : Nat) : Prop where
  map : (d.read 1).bit 1 = true
  frame : (d.read 1).bit f = true
  named : content (d.read f) j ≠ 0

theorem Pinned.take {b : Nat} (h : Pinned s.disk f j) (small : f < 4096) (notMap : f ≠ 1) (hb : b < 4096)
    (clear : (s.disk.read 1).bit b = false) : Pinned (s.take b).disk f j := by
  have other : b ≠ 1 := by
    rintro rfl
    rw [h.map] at clear
    cases clear
  have apart : f ≠ b := by
    rintro rfl
    rw [h.frame] at clear
    cases clear
  refine ⟨?_, ?_, ?_⟩
  · rw [read_take_map hb other]
    exact Bytes.bit_setBit_of_bit _ (by omega) h.map
  · rw [read_take_map hb other]
    exact Bytes.bit_setBit_of_bit _ (by omega) h.frame
  · rw [read_take_of_ne hb small notMap apart]
    exact h.named

theorem Pinned.writeBack {bid : Nat} {block : Block} (before : Pinned d f j) (now : Pinned d' f j)
    (filled : Refilled (d.read bid) block) : Pinned (d'.write bid block) f j := by
  have bits : ∀ b, (d.read 1).bit b = true → (d'.read 1).bit b = true → ((d'.write bid block).read 1).bit b = true := by
    intro b was is
    by_cases here : 1 % 8388608 = bid % 8388608
    · have same : ∀ e : Image, e.read 1 = e.read bid := fun e => by unfold Image.read; rw [here]
      rw [same, Image.read_write]
      rw [same] at was
      exact filled.bit was
    · rwa [Image.read_write_of_ne _ _ here]
  refine ⟨bits 1 before.map now.map, bits f before.frame now.frame, ?_⟩
  by_cases here : f % 8388608 = bid % 8388608
  · have same : ∀ e : Image, e.read f = e.read bid := fun e => by unfold Image.read; rw [here]
    rw [same, Image.read_write]
    have was := before.named
    rw [same] at was
    unfold content at was ⊢
    rw [filled _ was]
    exact was
  · rw [Image.read_write_of_ne _ _ here]
    exact now.named

theorem refilled_setContent {frame block : Block} {k b : Nat} (hole : content frame k = 0)
    (filled : Refilled (setContent frame k b) block) : Refilled frame block := by
  intro i named
  have other : i ≠ 1 + k := by
    rintro rfl
    exact named hole
  have kept : (setContent frame k b).word i = frame.word i := Bytes.word_setWord_of_ne _ other
  rw [filled i (by rwa [kept]), kept]

theorem contentLoop_pinned {cap remaining count : Nat} {frame : Block} {bids : List Nat} {fill : Fill}
    (loaded : nfreemapBlocks s.sb ≠ 0) (small : f < 4096) (notMap : f ≠ 1) (pinned : Pinned s.disk f j)
    (run : contentLoop cap remaining count frame bids s = .ok fill) :
    Refilled frame fill.frame ∧ Pinned fill.state.disk f j ∧ fill.state.sb = s.sb := by
  induction remaining generalizing count frame bids s with
  | zero =>
    obtain rfl := Except.ok.inj run
    exact ⟨fun _ _ => rfl, pinned, rfl⟩
  | succ remaining ih =>
    rw [contentLoop] at run
    by_cases inside : count < SFS_FRAME_COUNT
    · rw [if_pos inside] at run
      obtain ⟨⟨frame₁, s₁⟩, entry, run⟩ := bind_ok run
      dsimp only at run
      by_cases store : bids.length < cap
      · rw [if_pos store] at run
        rw [fillEntry] at entry
        by_cases hole : content frame count = 0
        · rw [if_pos hole] at entry
          obtain ⟨⟨b, s₂⟩, alloc, entry⟩ := bind_ok entry
          obtain ⟨rfl, rfl⟩ := Prod.mk.inj (Except.ok.inj entry)
          obtain ⟨rfl, hb, clear, -⟩ := sfsAllocBlock_inv loaded alloc
          obtain ⟨filled, kept, sb⟩ := @ih (s.take b) _ _ _ loaded (pinned.take small notMap hb clear) run
          exact ⟨refilled_setContent hole filled, kept, sb⟩
        · rw [if_neg hole] at entry
          obtain ⟨rfl, rfl⟩ := Prod.mk.inj (Except.ok.inj entry)
          exact ih loaded pinned run
      · rw [if_neg store] at run
        cases run
    · rw [if_neg inside] at run
      obtain rfl := Except.ok.inj run
      exact ⟨fun _ _ => rfl, pinned, rfl⟩

/-- Wherever the walk leads, an entry that was filled stays filled. -/
theorem frameLoop_pinned {cap fuel remaining count frameBid : Nat} {bids : List Nat} {r : List Nat × State}
    (loaded : nfreemapBlocks s.sb ≠ 0) (small : f < 4096) (notMap : f ≠ 1) (pinned : Pinned s.disk f j)
    (run : frameLoop cap fuel remaining count frameBid bids s = .ok r) : Pinned r.2.disk f j := by
  induction fuel generalizing remaining count frameBid bids s with
  | zero => cases run
  | succ fuel ih =>
    rw [frameLoop] at run
    by_cases done : remaining = 0
    · rw [if_pos done] at run
      obtain rfl := Except.ok.inj run
      exact pinned
    · rw [if_neg done] at run
      obtain ⟨fill, filled, run⟩ := bind_ok run
      obtain ⟨kept, now, sb⟩ := contentLoop_pinned loaded small notMap pinned filled
      exact ih (by dsimp only; rw [sb]; exact loaded) (pinned.writeBack now kept) run

/-- A hole among the entries visited in the first frame is filled for good. -/
theorem frameLoop_fills {cap fuel remaining count : Nat} {bids : List Nat} {r : List Nat × State} (sound : Sound own s.disk)
    (loaded : nfreemapBlocks s.sb ≠ 0) (role : Owners.role own f = some .frame) (room : bids.length ≤ cap)
    (run : frameLoop cap fuel remaining count f bids s = .ok r) (low : count ≤ j) (high : j < count + visit remaining count) :
    content (r.2.disk.read f) j ≠ 0 := by
  have small := sound.role_lt role
  have notMap := sound.role_ne_one role
  have fits := frameLoop_room run room
  cases fuel with
  | zero => cases run
  | succ fuel =>
    have more : remaining ≠ 0 := by
      rintro rfl
      unfold visit at high
      omega
    rw [frameLoop, if_neg more] at run
    obtain ⟨fill, filled, run⟩ := bind_ok run
    have free : holes (s.disk.read f) count (visit remaining count) ≤ (s.disk.read 1).clearCount := by
      by_contra short
      rw [contentLoop_short sound loaded (sound.frameOk role) (by omega)] at filled
      cases filled
    obtain ⟨own₁, s₁, frame, run₁, attached, -, named, -⟩ := @frameRound_ok own s cap remaining count f bids sound loaded role
      free fits
    obtain rfl := Except.ok.inj (run₁.symm.trans filled)
    have pinned : Pinned (s₁.disk.write f frame) f j := by
      refine ⟨attached.sound.mapBit, attached.sound.bit (owned_of_role (attached.grows.role role)), ?_⟩
      rw [Image.read_write]
      exact named j low high
    have sb : s₁.sb = s.sb := attached.grows.sb
    exact (frameLoop_pinned (by dsimp only; rw [sb]; exact loaded) small notMap pinned run).named

/-! ### The call -/

/-- The call moved the cursor of the descriptor, and nothing else. -/
def OnlyCursor (slot : Fin 32) (s s' : State) : Prop := ∃ cur, s' = s.setFd slot { s.fdtable slot with cur := cur }

/-- A request that starts behind the first frame has no hole among the entries its blocks are taken from there. -/
def NoHoleTaken (d : Image) (frameBid cur length : Nat) : Prop :=
  127 ≤ cur / 512 → ∀ j < SFS_FRAME_COUNT, cur / 512 % 127 ≤ j → j ≤ cur / 512 % 127 + ((cur + length) / 512 - cur / 512) →
    content (d.read frameBid) j ≠ 0

/-- The parts of a read that returned. -/
structure ReadParts (s : State) (slot : Fin 32) (buf : List UInt8) (length : Nat) (r : Int) (buf' : List UInt8) (s' : State)
    (count : Nat) (ids : List Nat) (s₁ : State) (cur : Nat) : Prop where
  position : (s.fdtable slot).cur + length < 4294967296
  array : ((s.fdtable slot).cur + length) / 512 - (s.fdtable slot).cur / 512 + 1 ≤ length / 512 + 1
  scan : countBlocks s.disk (length / 512 + 1)
    (((s.fdtable slot).cur / 65024 : Nat) - (((s.fdtable slot).cur + length) / 65024 : Nat) + 1) (length / 512 + 2 + 1)
    (firstFrameOf s slot) ((s.fdtable slot).cur / 512) 0 = .ok count
  collect : frameLoop (length / 512 + 1) (((s.fdtable slot).cur + length) / 512 - (s.fdtable slot).cur / 512 + 1 + 1)
    (((s.fdtable slot).cur + length) / 512 - (s.fdtable slot).cur / 512 + 1) ((s.fdtable slot).cur / 512 % 127)
    (firstFrameOf s slot) [] s = .ok (ids, s₁)
  copy : readLoop s₁.disk ids (if count < length / 512 + 1 then 512 - (s.fdtable slot).cur % 512 + length / 512 * 512 else length)
    ((s.fdtable slot).cur % 512) (s.fdtable slot).cur buf = .ok (cur, buf')
  returned : r = length
  state : s' = s₁.setFd slot { s₁.fdtable slot with cur := cur }

theorem sfsRead_parts {fd : Int} {buf buf' : List UInt8} {length : Nat} {r : Int} (index : fdIndex fd = .ok slot)
    (position : (s.fdtable slot).cur + length < 4294967296) (run : sfsRead s fd buf length = .ok (r, buf', s')) :
    ∃ count ids s₁ cur, ReadParts s slot buf length r buf' s' count ids s₁ cur := by
  have bids : (numBids (length : Int)).toNat = length / 512 + 1 := numBids_nonneg (by omega)
  have blocks := numBlocks_nat position
  rw [sfsRead, index, ok_bind] at run
  dsimp only at run
  rw [if_pos (by omega), bids, toU32_natCast (by omega)] at run
  obtain ⟨count, counted, run⟩ := bind_ok run
  obtain ⟨⟨ids, s₁⟩, collect, run⟩ := bind_ok run
  obtain ⟨⟨cur, out⟩, copy, run⟩ := bind_ok run
  obtain ⟨rfl, same⟩ := Prod.mk.inj (Except.ok.inj run)
  obtain ⟨rfl, rfl⟩ := Prod.mk.inj same
  rw [toU32_add position] at counted
  rw [sfsGetFileContent, blocks] at collect
  have room := frameLoop_room collect (Nat.zero_le _)
  rw [List.length_nil, Nat.zero_add] at room
  refine ⟨count, ids, s₁, cur, position, room, counted, collect, ?_, ?_, rfl⟩
  · rw [← copy]
    congr 1
    split <;> omega
  · split <;> split at * <;> omega

theorem sfsRead_inv {fd : Int} {buf buf' : List UInt8} {length : Nat} {r : Int} (index : fdIndex fd = .ok slot)
    (cursor : (s.fdtable slot).cur < 4294967296) (int : length < 2147483648)
    (run : sfsRead s fd buf length = .ok (r, buf', s')) :
    ∃ count ids s₁ cur, ReadParts s slot buf length r buf' s' count ids s₁ cur := by
  refine sfsRead_parts index ?_ run
  -- A position past 32 bits takes more ids than the array has room for.
  have bids : (numBids (length : Int)).toNat = length / 512 + 1 := numBids_nonneg (by omega)
  rw [sfsRead, index, ok_bind] at run
  dsimp only at run
  rw [if_pos (by omega), bids, toU32_natCast (by omega)] at run
  obtain ⟨count, -, run⟩ := bind_ok run
  obtain ⟨⟨ids, s₁⟩, collect, -⟩ := bind_ok run
  have room := frameLoop_room collect (Nat.zero_le _)
  rw [List.length_nil, Nat.zero_add] at room
  unfold numBlocks toU32 at room
  omega

/-- A copy that was made fits in the buffer. -/
theorem readLoop_fits {bids : List Nat} {remaining offset cur : Nat} {buf : List UInt8} {r : Nat × List UInt8}
    (inBlock : offset < 512) (run : readLoop d bids remaining offset cur buf = .ok r) :
    min remaining (512 - offset) ≤ buf.length := by
  cases remaining with
  | zero => omega
  | succ remaining =>
    cases bids with
    | nil => cases run
    | cons b bids =>
      rw [readLoop] at run
      obtain ⟨bytes, copied, run⟩ := bind_ok run
      obtain ⟨buf', stored, -⟩ := bind_ok run
      have size := length_strncpy copied
      have shape := @toCopy_cases offset (remaining + 1) inBlock
      by_contra outside
      rw [blit, if_neg (by omega)] at stored
      cases stored

/-- The call returns, and moves a cursor only. -/
def OnlyReads (s : State) (fd : Int) (slot : Fin 32) (buf : List UInt8) (length : Nat) : Prop :=
  ∃ r buf' s', sfsRead s fd buf length = .ok (r, buf', s') ∧ OnlyCursor slot s s'

/-- The request stays inside the positions, the array of ids and, when it breaks off and copies whole blocks,
the buffer, and no entry it collects is a hole. -/
structure TakesNothing (s : State) (slot : Fin 32) (buf : List UInt8) (length : Nat) : Prop where
  position : (s.fdtable slot).cur + length < 4294967296
  array : (s.fdtable slot).cur % 512 + length % 512 < 512
  buffer : BreaksOff s.disk (firstFrameOf s slot) (s.fdtable slot).cur length → 512 - (s.fdtable slot).cur % 512 ≤ buf.length
  named : NoHoleTaken s.disk (firstFrameOf s slot) (s.fdtable slot).cur length

section
variable {fd : Int} {buf : List UInt8} {length : Nat}

theorem OnlyReads.takesNothing (sound : Sound own s.disk) (loaded : nfreemapBlocks s.sb ≠ 0) (index : fdIndex fd = .ok slot)
    (role : Owners.role own (firstFrameOf s slot) = some .frame) (cursor : (s.fdtable slot).cur < 4294967296)
    (int : length < 2147483648) (only : OnlyReads s fd slot buf length) : TakesNothing s slot buf length := by
  obtain ⟨r, buf', s', run, p, same⟩ := only
  obtain ⟨count, ids, s₁, cur, parts⟩ := sfsRead_inv index cursor int run
  have array := parts.array
  refine ⟨parts.position, by omega, fun breaks => ?_, fun late j hj low high => ?_⟩
  · rcases @countBlocks_cases s.disk (firstFrameOf s slot) (s.fdtable slot).cur length (length / 512 + 2) (by omega)
      with ⟨-, none⟩ | ⟨stays, -⟩ | ⟨stays, -⟩
    · obtain rfl := Except.ok.inj (none.symm.trans parts.scan)
      have copied := readLoop_fits (Nat.mod_lt _ (by decide)) parts.copy
      rw [if_pos (Nat.succ_pos _)] at copied
      omega
    · exact absurd breaks stays
    · exact absurd breaks stays
  · have disk : s₁.disk = s.disk := by
      have disk' : s'.disk = s.disk := (@congrArg _ _ _ _ State.disk same).trans (setFd_disk ..)
      rwa [parts.state, setFd_disk] at disk'
    have filled := frameLoop_fills sound loaded role (Nat.zero_le _) parts.collect low (by unfold visit; omega)
    rwa [disk] at filled

/-- The scan found the entries of all frames but the first. -/
theorem TakesNothing.noHoles (takes : TakesNothing s slot buf length)
    (passes : ScanPasses s.disk (firstFrameOf s slot) (s.fdtable slot).cur length) :
    NoHoles s.disk (firstFrameOf s slot) ((s.fdtable slot).cur / 512 % 127) (length / 512 + 1) := by
  have array := takes.array
  intro p low high
  by_cases head : 127 ≤ (s.fdtable slot).cur / 512 ∧ p < 127
  · rw [scanEntry_head _ _ head.2]
    exact takes.named head.1 p head.2 low (by omega)
  · rcases passes with all | breaks
    · exact all p (by omega) (by omega)
    · -- The request stays inside one frame's worth of blocks.
      obtain ⟨late, -, window⟩ := breaks
      omega

theorem TakesNothing.onlyReads (takes : TakesNothing s slot buf length) (index : fdIndex fd = .ok slot)
    (source : length ≤ buf.length) (ends : Ends (sfsRead s fd buf length)) : OnlyReads s fd slot buf length := by
  have position := takes.position
  have array := takes.array
  have passes := (sfsRead_ends_iff buf index position).mp ends
  have bids : (numBids (length : Int)).toNat = length / 512 + 1 := numBids_nonneg (by omega)
  have blocks : numBlocks (s.fdtable slot).cur (toU32 (length : Int)) = length / 512 + 1 := by
    rw [numBlocks_eq (by omega) (by omega), Int.toNat_natCast]
    omega
  have idle := @frameLoop_idle s (firstFrameOf s slot) (length / 512 + 1) (length / 512 + 1 + 1) (length / 512 + 1)
    ((s.fdtable slot).cur / 512 % 127) [] (Nat.mod_lt _ (by decide)) (takes.noHoles passes) (Nat.lt_succ_self _) (by simp)
  obtain ⟨ids, all, collect⟩ : ∃ ids, ids.length = length / 512 + 1 ∧
      sfsGetFileContent (length / 512 + 1) s slot (s.fdtable slot).cur (toU32 (length : Int)) = .ok (ids, s) := by
    refine ⟨_, ?_, by rw [sfsGetFileContent, blocks]; exact idle⟩
    rw [List.nil_append, List.length_map, List.length_range']
  obtain ⟨count, counted, found⟩ : ∃ count, countBlocks s.disk (length / 512 + 1)
      (((s.fdtable slot).cur / 65024 : Nat) - (((s.fdtable slot).cur + length) / 65024 : Nat) + 1) (length / 512 + 1 + 2)
      (firstFrameOf s slot) ((s.fdtable slot).cur / 512) 0 = .ok count ∧ (count = length / 512 + 1 ∨
        BreaksOff s.disk (firstFrameOf s slot) (s.fdtable slot).cur length) := by
    rcases @countBlocks_cases s.disk (firstFrameOf s slot) (s.fdtable slot).cur length (length / 512 + 2) (by omega)
      with ⟨breaks, run⟩ | ⟨-, -, run⟩ | ⟨stays, hole, -⟩
    · exact ⟨_, run, .inr breaks⟩
    · exact ⟨_, run, .inl rfl⟩
    · exact absurd passes (not_or.mpr ⟨hole, stays⟩)
  generalize remains : (if count < length / 512 + 1 then
    ((512 - (s.fdtable slot).cur % 512 : Nat) : Int) + (length / 512 : Nat) * 512 else length) = remaining
  have fits : (s.fdtable slot).cur % 512 + remaining.toNat ≤ 512 * (length / 512 + 1) ∧
      min remaining.toNat (512 - (s.fdtable slot).cur % 512) ≤ buf.length ∧
      min (remaining.toNat - (512 - (s.fdtable slot).cur % 512)) 512 ≤ buf.length := by
    rcases found with all | breaks
    · rw [if_neg (by omega)] at remains
      omega
    · have buffer := takes.buffer breaks
      split at remains <;> omega
  obtain ⟨cur, buf', copied, -⟩ := @readLoop_ok s.disk ids remaining.toNat ((s.fdtable slot).cur % 512) (s.fdtable slot).cur buf
    (Nat.mod_lt _ (by decide)) (by rw [all]; exact .inr fits.1) fits.2
  refine ⟨if 0 < remaining then length else 0, buf', s.setFd slot { s.fdtable slot with cur := cur }, ?_, cur, rfl⟩
  unfold firstFrameOf at counted
  rw [sfsRead, index, ok_bind]
  dsimp only
  rw [if_pos (by omega), bids, toU32_add position, counted, ok_bind, collect, ok_bind, Nat.add_sub_cancel, remains]
  dsimp only
  rw [copied, ok_bind]

/-- A read that ends leaves everything but its cursor exactly when it takes nothing. -/
theorem read_changes_nothing_iff (wf : WellFormed s.disk) (loaded : nfreemapBlocks s.sb = 1) (index : fdIndex fd = .ok slot)
    (file : IsFile s.disk (s.fdtable slot).inodeBid) (cursor : (s.fdtable slot).cur < 4294967296) (int : length < 2147483648)
    (source : length ≤ buf.length) (ends : Ends (sfsRead s fd buf length)) :
    OnlyReads s fd slot buf length ↔ TakesNothing s slot buf length := by
  have sound := wf.sound
  have role := role_of_own (sound.firstFrame_owned (file.role sound) (file.framed wf))
  exact ⟨fun only => only.takesNothing sound (by rw [loaded]; decide) index role cursor int,
    fun takes => takes.onlyReads index source ends⟩

end

theorem oneListed_file : ∃ own w, runAll Call.step oneListed (World.formatted .initial) = .ok w ∧ Healthy own w.state ∧
    IsFile w.state.disk (w.state.fdtable 0).inodeBid ∧ (w.state.fdtable 0).cur = 0 ∧
    size (w.state.disk.read (w.state.fdtable 0).inodeBid) = 0 ∧ 1 ≤ (w.state.disk.read 1).clearCount ∧
    content (w.state.disk.read (firstFrameOf w.state 0)) 0 ≠ 0 ∧ ∀ k : Fin 124, (w.state.disk.read 0).word (4 + k.val) = 0 := by
  obtain ⟨w, dirBid, run, -, present, dir, slot, named, cursor, empty, entry, loaded, clear, padding⟩ := oneListed_world
  obtain ⟨w', run', inv⟩ := fine_reaches .initial oneListed oneListed_fine
  obtain rfl := Except.ok.inj (run.symm.trans run')
  rcases inv with fresh | ⟨own, serves⟩
  · rw [fresh.unloaded] at loaded
    cases (Bytes.word_zero 2).symm.trans loaded
  · exact ⟨own, w, run, serves.healthy, isFile_of_slot dir slot (by decide) present named, cursor, empty,
      Bytes.clearCount_pos (by decide) clear, entry, padding⟩

/-- A read from one block returns when the scan finds that block and one is free. -/
theorem sfsRead_small {fd : Int} {fs : List Nat} {buf : List UInt8} {length : Nat} (healthy : Healthy own s)
    (index : fdIndex fd = .ok slot) (file : IsFile s.disk (s.fdtable slot).inodeBid)
    (chain : FrameChain s.disk (s.fdtable slot).inodeBid fs) (position : (s.fdtable slot).cur < 4294966784)
    (short : (s.fdtable slot).cur % 512 + length < 512) (source : length ≤ buf.length)
    (inside : min ((s.fdtable slot).cur / 512) 127 < 127 * fs.length)
    (named : entryAt s.disk fs (min ((s.fdtable slot).cur / 512) 127) ≠ 0) (free : 1 ≤ (s.disk.read 1).clearCount) :
    ∃ r buf' s', sfsRead s fd buf length = .ok (r, buf', s') := by
  have role := file.role healthy.sound
  have bids : (numBids (length : Int)).toNat = 1 := by
    rw [numBids_nonneg (by omega)]
    omega
  have blocks : numBlocks (s.fdtable slot).cur (toU32 (length : Int)) = 1 := by
    rw [numBlocks_eq (by omega) (by omega)]
    omega
  have few := holesAt_le s.disk fs ((s.fdtable slot).cur / 512 % 127) 1
  have room : ReadRoom s (s.fdtable slot) buf length fs := by
    refine ⟨chain, .all (by omega) (fun p low high => ?_) (by omega), .inr (by omega), ?_, by omega, by omega, by omega⟩
    · obtain rfl : p = min ((s.fdtable slot).cur / 512) 127 := by omega
      exact named
    · rw [blocks]
      omega
  obtain ⟨r, buf', own', s', run, -⟩ := sfsRead_ok index rfl healthy.sound healthy.coherent.loaded role room
  exact ⟨r, buf', s', run⟩

theorem oneWritten_file : ∃ own w dirBid, runAll Call.step oneWritten (World.start .initial) = .ok w ∧ OneByte w dirBid ∧
    Healthy own w.state ∧ IsFile w.state.disk (w.state.fdtable 0).inodeBid ∧
    FileHolds w.state.disk (w.state.fdtable 0).inodeBid [97] := by
  obtain ⟨w, dirBid, run, one⟩ := oneWritten_world
  obtain ⟨w', own, run', serves⟩ := run_serves .initial (fun c w own _ fine => fine) oneWritten oneWritten_fine
  obtain rfl := Except.ok.inj (run.symm.trans run')
  have file := isFile_of_slot one.dir one.slot (by decide) one.present one.named
  obtain ⟨fs, chain, -⟩ := serves.healthy.sound.frameChain (file.role serves.healthy.sound)
  obtain ⟨rest, rfl⟩ := FrameChain.first (s := w.state) chain (file.framed serves.healthy.wellFormed)
  refine ⟨own, w, dirBid, run, one, serves.healthy, file, ⟨_, chain, by rw [one.bytes, List.length_cons]; omega, ?_⟩⟩
  rw [one.bytes, List.range_one, List.map_singleton, byteAt, entryAt_head (by decide), if_neg one.entry]
  exact congrArg (fun c => [c]) one.stored.symm

/-- One byte of the first block. -/
theorem first_block_keeps : ∃ w, runAll Call.step oneWritten (World.start .initial) = .ok w ∧ OnlyReads w.state 0 0 [0] 1 := by
  obtain ⟨own, w, dirBid, run, one, healthy, file, -⟩ := oneWritten_file
  have cursor := one.cursor
  have early : ¬ 127 ≤ (w.state.fdtable 0).cur / 512 := by rw [cursor]; decide
  have scan : ScanPasses w.state.disk (firstFrameOf w.state 0) (w.state.fdtable 0).cur 1 := .inl fun p low high => by
    rw [cursor] at low high
    obtain rfl : p = 0 := by omega
    rw [scanEntry_head _ _ (by decide)]
    exact one.entry
  refine ⟨w, run, (@read_changes_nothing_iff w.state 0 0 [0] 1 healthy.wellFormed healthy.coherent.nfreemapBlocks (fdIndex_val 0)
    file (by rw [cursor]; decide) (by decide) (Nat.le_refl _)
    ((sfsRead_ends_iff [0] (fdIndex_val 0) (by rw [cursor]; decide)).mpr scan)).mpr ?_⟩
  exact ⟨by rw [cursor]; decide, by rw [cursor]; decide, fun breaks => absurd breaks.1 early, fun late => absurd late early⟩

/-- Position 65024 is in the second frame, and the read takes entry 0 of the first one. -/
theorem second_frame_read_changes : ¬ ∀ (s : State) (fd : Int) (slot : Fin 32) (buf : List UInt8) (length : Nat),
    WellFormed s.disk → nfreemapBlocks s.sb = 1 → fdIndex fd = .ok slot → IsFile s.disk (s.fdtable slot).inodeBid →
    (s.fdtable slot).cur < 4294967296 → length < 2147483648 → length ≤ buf.length → Ends (sfsRead s fd buf length) →
    OnlyReads s fd slot buf length := by
  intro claim
  obtain ⟨own, s, f, -, two⟩ := grown_file
  let t := s.setFd 0 { s.fdtable 0 with cur := 65024 }
  have cursor : (t.fdtable 0).cur = 65024 := by rw [setFd_self]
  have inode : (t.fdtable 0).inodeBid = 3 := by rw [setFd_self]; exact two.entry
  have healthy : Healthy own t := two.healthy.setFd 0 _
  have file : IsFile t.disk (t.fdtable 0).inodeBid := by rw [inode]; exact two.file
  have chain : FrameChain t.disk (t.fdtable 0).inodeBid [4, f] := by rw [inode]; exact two.chain
  have second : entryAt t.disk [4, f] 127 ≠ 0 := two.full 0 (by decide)
  have room := two.free
  have space := oneFile_free
  obtain ⟨r, buf, s', read⟩ := @sfsRead_small own t 0 0 _ [0] 1 healthy (fdIndex_val 0) file chain
    (by rw [cursor]; decide) (by rw [cursor]; decide) (Nat.le_refl _)
    (by rw [cursor]; show 127 < 254; decide) (by rw [cursor]; exact second) (by show 1 ≤ (s.disk.read 1).clearCount; omega)
  have ends : Ends (sfsRead t 0 [0] (1 : Nat)) := by
    rw [read]
    exact ends_ok _
  have keeps := claim t 0 0 [0] 1 healthy.wellFormed healthy.coherent.nfreemapBlocks (fdIndex_val 0) file
    (by rw [cursor]; decide) (by decide) (Nat.le_refl _) ends
  have first : firstFrameOf t 0 = 4 := by
    rw [firstFrameOf, inode]
    exact two.chain.1.symm
  have role : Owners.role own (firstFrameOf t 0) = some .frame := by
    rw [first]
    exact (two.chain.mem two.healthy.sound two.role 4 (List.mem_cons_self ..)).1
  have named := (keeps.takesNothing healthy.sound healthy.coherent.loaded (fdIndex_val 0) role (by rw [cursor]; decide)
    (by decide)).named (by rw [cursor]) 0 (by decide) (by rw [cursor]) (Nat.zero_le _)
  rw [first] at named
  exact named (two.empty 0)

end StorageStack.Sfs
