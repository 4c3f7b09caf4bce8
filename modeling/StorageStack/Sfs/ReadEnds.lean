import StorageStack.Sfs.Transfer
import StorageStack.Sfs.Superblock

/-!
# When a read ends

The scan of `sfs_read` follows the links of the frames, at the end of the chain into block 0, and moves past
an entry only when it is not zero. So it ends when it finds an entry for every block it looks for, or when it
breaks off because the cursor is behind a file of one frame. The other loops always end.
-/

namespace StorageStack.Sfs
open Lib CString

/-- Entry `p` of the frames that follow each other from `frameBid` on, whether they end or not. -/
def scanEntry (d : Image) (frameBid p : Nat) : Nat := content (d.read ((frameNext d)^[p / 127] frameBid)) (p % 127)

/-- None of the `n` entries from `i` on is zero. -/
def NoHoles (d : Image) (frameBid i n : Nat) : Prop := ∀ p, i ≤ p → p < i + n → scanEntry d frameBid p ≠ 0

/-- The scan breaks off behind the first frame. -/
def BreaksOff (d : Image) (frameBid cur length : Nat) : Prop :=
  127 ≤ cur / 512 ∧ nextFrame (d.read frameBid) = 0 ∧ (cur + length) / 65024 = cur / 65024

/-- The scan for `length` bytes at `cur` meets no hole before it has its blocks, or it breaks off. -/
def ScanPasses (d : Image) (frameBid cur length : Nat) : Prop :=
  NoHoles d frameBid (min (cur / 512) 127) (length / 512 + 1) ∨ BreaksOff d frameBid cur length

variable {s : State} {d : Image} {f p n : Nat}

theorem scanEntry_head (d : Image) (f : Nat) (h : p < 127) : scanEntry d f p = content (d.read f) p := by
  rw [scanEntry, Nat.div_eq_of_lt h, Nat.mod_eq_of_lt h]
  rfl

theorem scanEntry_tail (d : Image) (f p : Nat) : scanEntry d f (127 + p) = scanEntry d (nextFrame (d.read f)) p := by
  rw [scanEntry, scanEntry, show (127 + p) / 127 = p / 127 + 1 by omega, show (127 + p) % 127 = p % 127 by omega]
  rfl

/-- What is looked for lies in the first frame and in those behind it. -/
theorem noHoles_cons {i : Nat} (inFrame : i ≤ 127) : NoHoles d f i n ↔
    (∀ j, i ≤ j → j < i + visit n i → content (d.read f) j ≠ 0) ∧ NoHoles d (nextFrame (d.read f)) 0 (n - visit n i) := by
  unfold visit SFS_FRAME_COUNT
  constructor
  · intro all
    refine ⟨fun j low high => ?_, fun p _ high => ?_⟩
    · rw [← scanEntry_head d f (by omega)]
      exact all j low (by omega)
    · rw [← scanEntry_tail]
      exact all (127 + p) (by omega) (by omega)
  · intro ⟨named, rest⟩ p low high
    by_cases head : p < 127
    · rw [scanEntry_head d f head]
      exact named p low (by omega)
    · have later := rest (p - 127) (Nat.zero_le _) (by omega)
      rwa [← scanEntry_tail, show 127 + (p - 127) = p by omega] at later

theorem noHoles_tail : NoHoles d f 127 n ↔ NoHoles d (nextFrame (d.read f)) 0 n := by
  have none : visit n 127 = 0 := Nat.min_zero n
  rw [noHoles_cons (Nat.le_refl _), none, Nat.sub_zero]
  exact and_iff_right fun j low high => by omega

/-! ### Counting -/

theorem countEntries_stuck {frame : Block} {numBlocks remaining contentBlk count j : Nat} (low : contentBlk ≤ j)
    (high : j < contentBlk + min (numBlocks - count) remaining) (hole : content frame j = 0) :
    countEntries frame numBlocks remaining contentBlk count = .error .spins := by
  induction remaining generalizing contentBlk count with
  | zero => omega
  | succ remaining ih =>
    rw [countEntries, if_pos (by omega)]
    by_cases here : content frame contentBlk = 0
    · rw [if_neg (not_not.mpr here)]
    · have other : contentBlk ≠ j := by
        rintro rfl
        exact here hole
      rw [if_pos here]
      exact ih (by omega) (by omega)

/-- From inside a frame on the loop finds all its blocks or never ends. -/
theorem countBlocks_scan {numBlocks fuel contentBlk count : Nat} {numFrames : Int} (one : numFrames ≤ 1) (start : contentBlk < 127)
    (few : count ≤ numBlocks) (enough : numBlocks - count < fuel) :
    (NoHoles d f contentBlk (numBlocks - count) ∧
      countBlocks d numBlocks numFrames fuel f contentBlk count = .ok numBlocks) ∨
    (¬ NoHoles d f contentBlk (numBlocks - count) ∧
      countBlocks d numBlocks numFrames fuel f contentBlk count = .error .spins) := by
  induction fuel generalizing f contentBlk count with
  | zero => omega
  | succ fuel ih =>
    rw [countBlocks]
    by_cases more : count < numBlocks
    · rw [if_pos more]
      dsimp only
      rw [noHoles_cons (by omega)]
      by_cases named : ∀ j, contentBlk ≤ j → j < contentBlk + visit (numBlocks - count) contentBlk → content (d.read f) j ≠ 0
      · have counted := countEntries_ok few named
        have visited : 0 < visit (numBlocks - count) contentBlk ∧ visit (numBlocks - count) contentBlk ≤ numBlocks - count := by
          unfold visit SFS_FRAME_COUNT
          omega
        change _ = Except.ok (count + visit (numBlocks - count) contentBlk) at counted
        rw [counted, ok_bind, if_neg (by omega), and_iff_right named, Nat.sub_sub]
        exact ih (by decide) (by omega) (by omega)
      · right
        refine ⟨fun both => named both.1, ?_⟩
        push Not at named
        obtain ⟨j, low, high, hole⟩ := named
        rw [countEntries_stuck low high hole, error_bind]
    · left
      rw [if_neg more]
      refine ⟨fun p low high => ?_, ?_⟩
      · omega
      · rw [show count = numBlocks by omega]

theorem countBlocks_cases {cur length fuel : Nat} (enough : length / 512 + 1 < fuel) :
    let scan := countBlocks d (length / 512 + 1) ((cur / 65024 : Nat) - ((cur + length) / 65024 : Nat) + 1) (fuel + 1) f
      (cur / 512) 0
    BreaksOff d f cur length ∧ scan = .ok 0 ∨
    ¬ BreaksOff d f cur length ∧ NoHoles d f (min (cur / 512) 127) (length / 512 + 1) ∧ scan = .ok (length / 512 + 1) ∨
    ¬ BreaksOff d f cur length ∧ ¬ NoHoles d f (min (cur / 512) 127) (length / 512 + 1) ∧ scan = .error .spins := by
  dsimp only
  by_cases first : cur / 512 < 127
  · have stays : ¬ BreaksOff d f cur length := fun breaks => by
      have late := breaks.1
      omega
    rw [Nat.min_eq_left (by omega)]
    rcases @countBlocks_scan d f (length / 512 + 1) (fuel + 1) (cur / 512) 0
      ((cur / 65024 : Nat) - ((cur + length) / 65024 : Nat) + 1) (by omega) first (Nat.zero_le _) (by omega)
      with ⟨all, run⟩ | ⟨hole, run⟩
    · exact .inr (.inl ⟨stays, all, run⟩)
    · exact .inr (.inr ⟨stays, hole, run⟩)
  · have none : SFS_FRAME_COUNT - cur / 512 = 0 := by unfold SFS_FRAME_COUNT; omega
    rw [countBlocks, if_pos (Nat.succ_pos _), Nat.min_eq_right (by omega), noHoles_tail]
    dsimp only
    rw [none, countEntries, ok_bind]
    by_cases breaks : BreaksOff d f cur length
    · left
      have window := breaks.2.2
      exact ⟨breaks, if_pos ⟨breaks.2.1, by omega⟩⟩
    · have goesOn : ¬ (nextFrame (d.read f) = 0 ∧
          ((0 : Nat) : Int) < (cur / 65024 : Nat) - ((cur + length) / 65024 : Nat) + 1) := by
        intro both
        exact breaks ⟨by omega, both.1, by omega⟩
      right
      rw [if_neg goesOn]
      rcases @countBlocks_scan d (nextFrame (d.read f)) (length / 512 + 1) fuel 0 0
        ((cur / 65024 : Nat) - ((cur + length) / 65024 : Nat) + 1) (by omega) (by decide) (Nat.zero_le _) enough
        with ⟨all, run⟩ | ⟨hole, run⟩
      · exact .inl ⟨breaks, all, run⟩
      · exact .inr ⟨breaks, hole, run⟩

/-! ### The other loops -/

theorem findEntry_ends (freemap : Block) (remaining fmByte : Nat) : Ends (findEntry freemap remaining fmByte) := by
  induction remaining generalizing fmByte with
  | zero => exact ends_ok _
  | succ remaining ih =>
    rw [findEntry]
    split
    · dsimp only
      split
      · split
        · exact ends_ok _
        · exact ih _
      · exact ih _
    · exact ends_undefined

theorem allocFrom_ends (remaining fmBlk : Nat) (s : State) : Ends (allocFrom remaining fmBlk s) := by
  induction remaining generalizing fmBlk s with
  | zero => exact ends_ok _
  | succ remaining ih =>
    rw [allocFrom]
    refine (findEntry_ends _ _ _).bind fun found _ => ?_
    cases found with
    | none => exact ih _ _
    | some place => exact ends_ok _

theorem fillEntry_ends (frame : Block) (j : Nat) (s : State) : Ends (fillEntry frame j s) := by
  rw [fillEntry]
  split
  · exact (allocFrom_ends _ _ _).bind fun _ _ => ends_ok _
  · exact ends_ok _

theorem contentLoop_ends (cap remaining blockCount : Nat) (frame : Block) (bids : List Nat) (s : State) :
    Ends (contentLoop cap remaining blockCount frame bids s) := by
  induction remaining generalizing blockCount frame bids s with
  | zero => exact ends_ok _
  | succ remaining ih =>
    rw [contentLoop]
    split
    · refine (fillEntry_ends _ _ _).bind fun filled _ => ?_
      dsimp only
      split
      · exact ih _ _ _ _
      · exact ends_undefined
    · exact ends_ok _

/-- A visit takes as many ids as are left in the frame. -/
theorem contentLoop_remaining {cap remaining blockCount : Nat} {frame : Block} {bids : List Nat} {fill : Fill}
    (run : contentLoop cap remaining blockCount frame bids s = .ok fill) :
    fill.remaining = remaining - (SFS_FRAME_COUNT - blockCount) := by
  induction remaining generalizing blockCount frame bids s with
  | zero =>
    obtain rfl := Except.ok.inj run
    exact (Nat.zero_sub _).symm
  | succ remaining ih =>
    rw [contentLoop] at run
    split at run
    · obtain ⟨filled, -, run⟩ := bind_ok run
      dsimp only at run
      split at run
      · rw [ih run]
        omega
      · cases run
    · obtain rfl := Except.ok.inj run
      dsimp only
      omega

theorem frameLoop_ends {cap fuel remaining blockCount frameBid : Nat} {bids : List Nat} (inFrame : blockCount < 127)
    (enough : remaining < fuel) : Ends (frameLoop cap fuel remaining blockCount frameBid bids s) := by
  induction fuel generalizing remaining blockCount frameBid bids s with
  | zero => omega
  | succ fuel ih =>
    rw [frameLoop]
    split
    · exact ends_ok _
    · refine (contentLoop_ends _ _ _ _ _ _).bind fun fill run => ?_
      have fewer := contentLoop_remaining run
      refine ih (by decide) ?_
      unfold SFS_FRAME_COUNT at fewer
      omega

theorem sfsGetFileContent_ends (cap : Nat) (s : State) (fd : Fin 32) (cur length : Nat) :
    Ends (sfsGetFileContent cap s fd cur length) :=
  frameLoop_ends (Nat.mod_lt _ (by decide)) (Nat.lt_succ_self _)

theorem readLoop_ends (bids : List Nat) (remaining offset cur : Nat) (buf : List UInt8) :
    Ends (readLoop d bids remaining offset cur buf) := by
  induction bids generalizing remaining offset cur buf with
  | nil =>
    cases remaining with
    | zero => exact ends_ok _
    | succ remaining => exact ends_undefined
  | cons bid bids ih =>
    cases remaining with
    | zero => exact ends_ok _
    | succ remaining =>
      rw [readLoop]
      refine Ends.bind ?_ fun bytes _ => Ends.bind ?_ fun buf' _ => ih _ _ _ _
      · unfold strncpy
        dsimp only
        split
        · exact ends_ok _
        · exact ends_undefined
      · unfold blit
        split
        · exact ends_ok _
        · exact ends_undefined

/-! ### The call -/

/-- The first frame of the file behind a descriptor. -/
def firstFrameOf (s : State) (slot : Fin 32) : Nat := firstFrame (s.disk.read (s.fdtable slot).inodeBid)

theorem sfsRead_ends_iff {fd : Int} {slot : Fin 32} {length : Nat} (buf : List UInt8) (index : fdIndex fd = .ok slot)
    (position : (s.fdtable slot).cur + length < 4294967296) :
    Ends (sfsRead s fd buf length) ↔ ScanPasses s.disk (firstFrameOf s slot) (s.fdtable slot).cur length := by
  have bids : (numBids (length : Int)).toNat = length / 512 + 1 := numBids_nonneg (by omega)
  rw [sfsRead, index, ok_bind]
  dsimp only
  rw [if_pos (by omega), bids, toU32_add position]
  constructor
  · intro ends
    rcases @countBlocks_cases s.disk (firstFrameOf s slot) (s.fdtable slot).cur length (length / 512 + 2) (by omega)
      with ⟨breaks, -⟩ | ⟨-, all, -⟩ | ⟨-, -, run⟩
    · exact .inr breaks
    · exact .inl all
    · exact absurd run ends.first
  · intro passes
    refine Ends.bind ?_ fun count _ => ?_
    · rcases @countBlocks_cases s.disk (firstFrameOf s slot) (s.fdtable slot).cur length (length / 512 + 2) (by omega)
        with ⟨-, run⟩ | ⟨-, -, run⟩ | ⟨stays, hole, -⟩
      · intro spins
        cases run.symm.trans spins
      · intro spins
        cases run.symm.trans spins
      · rcases passes with all | breaks
        · exact absurd all hole
        · exact absurd breaks stays
    · refine (sfsGetFileContent_ends _ _ _ _ _).bind fun content _ => ?_
      refine (readLoop_ends _ _ _ _ _).bind fun _ _ => ends_ok _

/-- In every state that a run of calls leaves, a read inside the file ends exactly when its scan does. -/
theorem read_ends_iff (s : State) (calls : List Call) :
    ∀ w, runAll Call.step calls (World.formatted s) = .ok w → ∀ (fd : Int) (slot : Fin 32) (buf : List UInt8) (length : Nat),
      fdIndex fd = .ok slot → (w.state.fdtable slot).cur + length ≤ size (w.state.disk.read (w.state.fdtable slot).inodeBid) →
      (Ends (sfsRead w.state fd buf length) ↔
        ScanPasses w.state.disk (firstFrameOf w.state slot) (w.state.fdtable slot).cur length) := by
  intro w _ fd slot buf length index inside
  have small := (w.state.disk.read (w.state.fdtable slot).inodeBid).word_lt 0
  exact sfsRead_ends_iff buf index (by unfold size at inside; omega)

/-! ### A hole -/

/-- A file of 1025 bytes whose block 1 was never written. -/
def oneHole : List Call :=
  [.printInfo, .mkdir .zero slash, .openFile .zero slash slash, .seek 0 1024 0, .write none 0 [97] 1]

theorem oneHole_world : ∃ w, runAll Call.step oneHole (World.formatted .initial) = .ok w ∧ (w.state.fdtable 0).cur = 1025 ∧
    size (w.state.disk.read (w.state.fdtable 0).inodeBid) = 1025 ∧
    content (w.state.disk.read (firstFrameOf w.state 0)) 1 = 0 ∧ content (w.state.disk.read (firstFrameOf w.state 0)) 2 ≠ 0 := by
  have facts : check (fun w => decide ((w.state.fdtable 0).cur = 1025 ∧
      size (w.state.disk.read (w.state.fdtable 0).inodeBid) = 1025 ∧
      content (w.state.disk.read (firstFrameOf w.state 0)) 1 = 0 ∧ content (w.state.disk.read (firstFrameOf w.state 0)) 2 ≠ 0))
      (runAll Call.step oneHole (World.formatted .initial)) = true := by
    decide +kernel
  obtain ⟨w, run, holds⟩ := of_check facts
  exact ⟨w, run, of_decide_eq_true holds⟩

/-- A seek in that file. -/
theorem oneHole_seek (p : Nat) : ∃ w, runAll Call.step (oneHole ++ [.seek 0 p 0]) (World.formatted .initial) = .ok w ∧
    (w.state.fdtable 0).cur = p ∧ size (w.state.disk.read (w.state.fdtable 0).inodeBid) = 1025 ∧
    content (w.state.disk.read (firstFrameOf w.state 0)) 1 = 0 ∧ content (w.state.disk.read (firstFrameOf w.state 0)) 2 ≠ 0 := by
  obtain ⟨w, run, -, bytes, hole, named⟩ := oneHole_world
  have seek : Call.step (.seek 0 p 0) w = .ok ⟨w.state.setFd 0 { w.state.fdtable 0 with cur := p }, w.live⟩ :=
    Call.step_ok (c := .seek 0 p 0) (@sfsSeek_set w.state 0 0 rfl p)
  refine ⟨⟨w.state.setFd 0 { w.state.fdtable 0 with cur := p }, w.live⟩, ?_, by rw [setFd_self], ?_, ?_, ?_⟩
  · rw [runAll_append, run, ok_bind, runAll, seek, ok_bind, runAll]
  · rw [setFd_self]
    exact bytes
  · rw [firstFrameOf, setFd_self]
    exact hole
  · rw [firstFrameOf, setFd_self]
    exact named

/-- The last byte. -/
theorem last_byte_ends : ∃ w, runAll Call.step (oneHole ++ [.seek 0 1024 0]) (World.formatted .initial) = .ok w ∧
    Ends (sfsRead w.state 0 [0] 1) := by
  obtain ⟨w, run, cursor, bytes, -, named⟩ := oneHole_seek 1024
  refine ⟨w, run, (read_ends_iff .initial _ w run 0 0 [0] 1 rfl (by rw [cursor, bytes])).mpr (.inl ?_)⟩
  rw [cursor]
  intro p low high
  obtain rfl : p = 2 := by omega
  rw [scanEntry_head _ _ (by decide)]
  exact named

/-- One byte of the hole. -/
theorem hole_spins : ∃ w, runAll Call.step (oneHole ++ [.seek 0 512 0]) (World.formatted .initial) = .ok w ∧
    (w.state.fdtable 0).cur + 1 ≤ size (w.state.disk.read (w.state.fdtable 0).inodeBid) ∧
    ∀ buf, sfsRead w.state 0 buf 1 = .error .spins := by
  obtain ⟨w, run, cursor, bytes, hole, -⟩ := oneHole_seek 512
  refine ⟨w, run, by rw [cursor, bytes]; decide, fun buf => ?_⟩
  by_contra ends
  rcases (@sfsRead_ends_iff _ 0 0 1 buf (fdIndex_val 0) (by rw [cursor]; decide)).mp ends with all | breaks
  · rw [cursor] at all
    have named := all 1 (by decide) (by decide)
    rw [scanEntry_head _ _ (by decide)] at named
    exact named hole
  · have late := breaks.1
    rw [cursor] at late
    exact absurd late (by decide)

end StorageStack.Sfs
