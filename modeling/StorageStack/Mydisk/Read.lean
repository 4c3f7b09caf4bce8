import StorageStack.Mydisk.Write

/-!
# Reading a range

`mydisk_read` visits as many blocks as `mydisk_write`. It copies every whole block after the first to
the front of the buffer and the last one right behind the first block's part, so a position of the
buffer may be written several times, or never. `lastCopied` names the file position whose byte stays.
`mydiskRead_meets_iff` says for which requests the buffer is right: blocks of the disk have to repeat
each other, and what no copy reaches has to be in the buffer already.
-/

namespace StorageStack.Mydisk
open Lib

variable {d : Disk} {nblocks : Nat} {out : List UInt8}

theorem copyBlock_ok {b skip pos len : Nat} (ready : Ready d nblocks) (h : b < nblocks) (inBlock : skip + len ≤ 512)
    (inBuffer : pos + len ≤ out.length) :
    ∃ out', memcpy out pos (block d.thefile.bytes b) skip len = .ok out' ∧ out'.length = out.length ∧
      Written out out' pos (pos + len) (fun i => d.thefile.bytes[512 * b + skip + (i - pos)]?) := by
  have size := length_block ready.size h
  have copied : (((block d.thefile.bytes b).drop skip).take len).length = len := by simp [size]; omega
  have run := @written_overlay _ out (((block d.thefile.bytes b).drop skip).take len) pos (by omega)
  rw [copied] at run
  refine ⟨_, memcpy_ok (by omega) inBuffer, length_overlay (by omega), run.congr fun i low high => ?_⟩
  rw [getElem?_slice, if_pos (by omega), getElem?_block, if_pos (by omega), Nat.add_assoc]

/-- Where the loop finds the byte it leaves at `i`, once it is past the first block: the last block
goes to `len` and the whole block before it to the front. `none` is a position it never writes. -/
def laterCopied (len rem last i : Nat) (whole : Bool) : Option Nat :=
  if rem ≠ 0 ∧ len ≤ i ∧ i < len + rem then some (512 * last + (i - len))
  else if i < 512 ∧ whole then some (512 * (if rem ≠ 0 then last - 1 else last) + i)
  else none

/-- What is at `i` after copies from the positions `from?` names. -/
def pick (bytes out : List UInt8) (source : Option Nat) (i : Nat) : Option UInt8 :=
  match source with
  | some p => bytes[p]?
  | none => out[i]?

theorem readLoop_later {offset len rem amount b remaining : Nat} (ready : Ready d nblocks) (later : amount ≠ 0)
    (range : b + remaining < nblocks) (short : rem ≤ 512) (roomWhole : remaining ≠ 0 ∨ rem = 0 → 512 ≤ out.length)
    (roomLast : len + rem ≤ out.length) :
    ∃ out' d', readLoop offset len rem (remaining + 1) amount b out d = .ok (out', d') ∧
      d'.thefile.bytes = d.thefile.bytes ∧ out'.length = out.length ∧
      ∀ i, out'[i]? = pick d.thefile.bytes out
        (laterCopied len rem (b + remaining) i (decide (remaining ≠ 0 ∨ rem = 0))) i := by
  induction remaining generalizing d out amount b with
  | zero =>
    rw [readLoop, mydiskReadBlock_ok ready.sized ready.uncached (by omega) (List.length_replicate ..), ok_bind]
    dsimp only
    rw [if_neg (by omega), if_neg (by omega)]
    by_cases tail : rem = 0
    · obtain ⟨out', run, size, written⟩ := @copyBlock_ok d nblocks out b 0 0 512 ready (by omega) (by omega)
        (by have := roomWhole (Or.inr tail); omega)
      rw [if_neg (by omega), run, ok_bind, readLoop]
      refine ⟨out', _, rfl, rfl, size, fun i => ?_⟩
      rw [written i]
      by_cases front : i < 512
      · simp [laterCopied, pick, tail, front]
      · simp [laterCopied, pick, tail, front]
    · obtain ⟨out', run, size, written⟩ := @copyBlock_ok d nblocks out b 0 len rem ready (by omega) (by omega) roomLast
      rw [if_pos ⟨rfl, tail⟩, run, ok_bind, readLoop]
      refine ⟨out', _, rfl, rfl, size, fun i => ?_⟩
      rw [written i]
      by_cases inside : len ≤ i ∧ i < len + rem
      · simp [laterCopied, pick, tail, inside]
      · simp [laterCopied, pick, tail, inside]
  | succ remaining ih =>
    rw [readLoop, mydiskReadBlock_ok ready.sized ready.uncached (by omega) (List.length_replicate ..), ok_bind]
    dsimp only
    rw [if_neg (by omega), if_neg (by omega), if_neg (by omega)]
    obtain ⟨out₁, run, size, written⟩ := @copyBlock_ok d nblocks out b 0 0 512 ready (by omega) (by omega)
      (by have := roomWhole (Or.inl (by omega)); omega)
    rw [run, ok_bind]
    obtain ⟨out', d', run', sameBytes, size', result⟩ := @ih (d.store d.thefile.bytes (512 * b + 512)) out₁
      (amount + 1) (b + 1) (ready.store ready.size) (by omega) (by omega)
      (fun _ => by have := roomWhole (Or.inl (by omega)); omega) (by omega)
    refine ⟨out', d', run', sameBytes, size'.trans size, fun i => ?_⟩
    rw [result i, show b + 1 + remaining = b + (remaining + 1) by omega]
    unfold laterCopied
    by_cases tail : rem ≠ 0 ∧ len ≤ i ∧ i < len + rem
    · simp only [if_pos tail, pick, store_bytes]
    rw [if_neg tail, if_neg tail]
    by_cases front : i < 512
    · -- A further whole block overwrites this one.
      by_cases more : remaining ≠ 0 ∨ rem = 0
      · simp [front, more, pick]
      · have only : remaining = 0 ∧ rem ≠ 0 := by omega
        simp [front, only, pick, written i]
    · simp [front, pick, written i]

/-! ### The call -/

/-- The length of the last copy of `mydisk_read`. -/
def lastLength (start n : Nat) : Nat :=
  if endsInside start n then (start % 512 + n) % 512 else n % 512

/-- Where the byte comes from that `mydisk_read` leaves at `i`. -/
def lastCopied (start n i : Nat) : Option Nat :=
  let first := 512 - start % 512
  let len := lastLength start n
  if blocksVisited start n = 1 then if i < len then some (start + i) else none
  else
    match laterCopied first len (start / 512 + blocksVisited start n - 1) i
      (decide (2 < blocksVisited start n ∨ len = 0)) with
    | some p => some p
    | none => if i < first then some (start + i) else none

theorem mydiskRead_eq {unset : Int} {start n : Nat} (ready : Ready d nblocks) (falls : unset ≠ 1)
    (range : start + n ≤ nblocks * 512) (gate : start ≤ nblocks * 511) :
    mydiskRead d unset start n out =
      (readLoop (start % 512) (if n + start % 512 > 512 then 512 - start % 512 else n) (lastLength start n)
        (blocksVisited start n) 0 (start / 512) out d).map fun r => (0, r.1, r.2) := by
  have last : lastLength start n =
      if n + start % 512 > 512 ∧ (start % 512 + n) % 512 ≠ 0 then (start % 512 + n) % 512 else n % 512 := by
    rcases blocksVisited_cases start n with ⟨inside, h₁, h₂, _⟩ | ⟨inside, _, h₂, _⟩ | ⟨inside, h₁, _⟩
    · rw [lastLength, inside, if_pos rfl, if_pos ⟨h₁, h₂⟩]
    · rw [lastLength, inside, if_neg Bool.false_ne_true, if_neg (fun h => h.2 h₂)]
    · rw [lastLength, inside, if_neg Bool.false_ne_true, if_neg (by omega)]
  have visited : blocksVisited start n =
      if n + start % 512 > 512 then n / 512 + (if (start % 512 + n) % 512 ≠ 0 then 1 else 0) else 1 := by
    rcases blocksVisited_cases start n with ⟨_, h₁, h₂, h⟩ | ⟨_, h₁, h₂, h⟩ | ⟨_, h₁, h⟩
    · rw [h, if_pos h₁, if_pos h₂]
    · rw [h, if_pos h₁, if_neg (not_not.mpr h₂)]; rfl
    · rw [h, if_neg (by omega)]
  rw [mydiskRead, if_neg (checkParams_ne_one ready falls range gate), last, visited]
  simp only [Int.toNat_natCast]
  cases readLoop _ _ _ _ _ _ _ _ <;> rfl

/-- The first block's part is what the request asks for. -/
theorem readLoop_first {rem start later : Nat} {skip len : Nat} (ready : Ready d nblocks) (inDisk : start / 512 < nblocks)
    (several : later ≠ 0) (inBuffer : 512 - start % 512 ≤ out.length) (hskip : skip = start % 512)
    (hlen : len = 512 - start % 512) :
    ∃ out₁, readLoop skip len rem (later + 1) 0 (start / 512) out d =
        readLoop skip len rem later 1 (start / 512 + 1) out₁ (d.store d.thefile.bytes (512 * (start / 512) + 512)) ∧
      out₁.length = out.length ∧
      Written out out₁ 0 (512 - start % 512) (fun i => d.thefile.bytes[start + i]?) := by
  subst hskip hlen
  obtain ⟨out₁, run, size, written⟩ := @copyBlock_ok d nblocks out (start / 512) (start % 512) 0 (512 - start % 512)
    ready inDisk (by omega) (by omega)
  refine ⟨out₁, ?_, size, ?_⟩
  · rw [readLoop, mydiskReadBlock_ok ready.sized ready.uncached inDisk (List.length_replicate ..), ok_bind]
    dsimp only
    rw [if_neg (by omega)]
    by_cases aligned : start % 512 = 0
    · rw [if_neg (by omega), if_neg (by omega)]
      rw [aligned] at run ⊢
      rw [run, ok_bind]
    · rw [if_pos ⟨rfl, aligned⟩, run, ok_bind]
  · rw [Nat.zero_add] at written
    exact written.congr fun i _ _ => by rw [show 512 * (start / 512) + start % 512 + (i - 0) = start + i by omega]

theorem lastLength_le (start n : Nat) (single : blocksVisited start n = 1) : lastLength start n ≤ n := by
  unfold lastLength
  rcases blocksVisited_cases start n with ⟨inside, _, _, visited⟩ | ⟨inside, _⟩ | ⟨inside, _⟩
  · rw [inside, if_pos rfl]; omega
  · rw [inside, if_neg Bool.false_ne_true]; omega
  · rw [inside, if_neg Bool.false_ne_true]; omega

/-- Every in-range call whose only copy stays in its temporary block leaves `lastCopied`. -/
theorem mydiskRead_picks {unset : Int} {start n : Nat} (ready : Ready d nblocks) (falls : unset ≠ 1)
    (range : start + n ≤ nblocks * 512) (gate : start ≤ nblocks * 511) (room : n ≤ out.length)
    (inBlock : blocksVisited start n = 1 → start % 512 + lastLength start n ≤ 512) (some : n ≠ 0) :
    ∃ out' d', mydiskRead d unset start n out = .ok (0, out', d') ∧ d'.thefile.bytes = d.thefile.bytes ∧
      ∀ i, out'[i]? = pick d.thefile.bytes out (lastCopied start n i) i := by
  have shape := blocksVisited_cases start n
  have inDisk : start / 512 < nblocks := by omega
  rw [mydiskRead_eq ready falls range gate]
  by_cases single : blocksVisited start n = 1
  · have short := lastLength_le start n single
    obtain ⟨out', run, _, written⟩ := @copyBlock_ok d nblocks out (start / 512) (start % 512) 0 (lastLength start n)
      ready inDisk (inBlock single) (by omega)
    rw [single, readLoop, mydiskReadBlock_ok ready.sized ready.uncached inDisk (List.length_replicate ..), ok_bind]
    dsimp only
    rw [if_pos ⟨rfl, rfl⟩, run]
    refine ⟨out', _, rfl, rfl, fun i => ?_⟩
    rw [written i, Nat.zero_add, lastCopied]
    dsimp only
    rw [if_pos single, show 512 * (start / 512) + start % 512 + (i - 0) = start + i by omega]
    by_cases copied : i < lastLength start n
    · rw [if_pos ⟨Nat.zero_le i, copied⟩, if_pos copied]; rfl
    · rw [if_neg (by omega), if_neg copied]; rfl
  · obtain ⟨later, visited⟩ : ∃ later, blocksVisited start n = later + 1 + 1 :=
      ⟨blocksVisited start n - 2, by omega⟩
    rw [visited] at shape
    have across : n + start % 512 > 512 := by omega
    obtain ⟨out₁, first, size₁, written₁⟩ := @readLoop_first d nblocks out (lastLength start n) start (later + 1) _ _
      ready inDisk (by omega) (by omega) rfl rfl
    obtain ⟨out', d', rest, sameBytes, _, result⟩ := @readLoop_later (d.store d.thefile.bytes _) nblocks out₁
      (start % 512) (512 - start % 512) (lastLength start n) 1 (start / 512 + 1) later (ready.store ready.size)
      (by omega) (by omega) (by unfold lastLength; split <;> omega)
      (fun whole => by
        unfold lastLength at whole
        rcases shape with ⟨inside, _⟩ | ⟨inside, _⟩ | ⟨_, short, _⟩
        · rw [inside, if_pos rfl] at whole; omega
        · rw [inside, if_neg Bool.false_ne_true] at whole; omega
        · omega)
      (by
        unfold lastLength
        rcases shape with ⟨inside, _⟩ | ⟨inside, _⟩ | ⟨_, short, _⟩
        · rw [inside, if_pos rfl]; omega
        · rw [inside, if_neg Bool.false_ne_true]; omega
        · omega)
    rw [visited, if_pos across, first, rest]
    refine ⟨out', d', rfl, sameBytes, fun i => ?_⟩
    have whole : decide (2 < later + 1 + 1 ∨ lastLength start n = 0) =
        decide (later ≠ 0 ∨ lastLength start n = 0) := decide_eq_decide.mpr (by omega)
    rw [result i, lastCopied, if_neg single, visited, whole,
      show start / 512 + (later + 1 + 1) - 1 = start / 512 + 1 + later by omega]
    cases laterCopied (512 - start % 512) (lastLength start n) (start / 512 + 1 + later) i
        (decide (later ≠ 0 ∨ lastLength start n = 0)) with
    | some p => rfl
    | none =>
      show out₁[i]? = _
      rw [written₁ i]
      by_cases front : i < 512 - start % 512
      · rw [if_pos ⟨Nat.zero_le i, front⟩, if_pos front]; rfl
      · rw [if_neg (by omega), if_neg front]; rfl

theorem mydiskRead_undefined {unset : Int} {start n : Nat} (ready : Ready d nblocks) (falls : unset ≠ 1)
    (range : start + n ≤ nblocks * 512) (gate : start ≤ nblocks * 511) (single : blocksVisited start n = 1)
    (outside : 512 < start % 512 + lastLength start n) : mydiskRead d unset start n out = .error .undefined := by
  have short := lastLength_le start n single
  have inDisk : start / 512 < nblocks := by omega
  have size := length_block ready.size inDisk
  rw [mydiskRead_eq ready falls range gate, single, readLoop,
    mydiskReadBlock_ok ready.sized ready.uncached inDisk (List.length_replicate ..), ok_bind]
  dsimp only
  rw [if_pos ⟨rfl, rfl⟩, memcpy_undefined (by omega)]
  rfl

/-- A request for nothing reads one block and copies nothing, also on a disk without blocks. -/
theorem mydiskRead_empty {unset : Int} {start : Nat} (ready : Ready d nblocks) (falls : unset ≠ 1)
    (gate : start ≤ nblocks * 511) :
    ∃ d', mydiskRead d unset start (0 : Nat) out = .ok (0, out, d') ∧ d'.thefile.bytes = d.thefile.bytes := by
  have range : start + 0 ≤ nblocks * 512 := Nat.le_trans gate (Nat.mul_le_mul_left _ (by decide))
  have block : ∃ code temp d', mydiskReadBlock d (start / 512 : Nat) (List.replicate 512 0) = .ok (code, temp, d') ∧
      temp.length = 512 ∧ d'.thefile.bytes = d.thefile.bytes := by
    by_cases inDisk : start / 512 < nblocks
    · exact ⟨_, _, _, mydiskReadBlock_ok ready.sized ready.uncached inDisk (List.length_replicate ..),
        length_block ready.size inDisk, rfl⟩
    · have noFile : d.thefile.bytes = [] := List.eq_nil_of_length_eq_zero (by rw [ready.size]; omega)
      have inRange : ¬ ((start / 512 : Nat) : Int) > d.maxBlocks := by
        rw [ready.maxBlocks]; omega
      have off : ¬ d.cacheEnabled = true := by simp [ready.uncached]
      have unread := seek_bytes d.thefile (toInt32 ((start / 512 : Nat) * 512))
      rw [noFile] at unread
      unfold mydiskReadBlock
      simp only [if_neg inRange, if_neg off, File.read, unread, List.drop_nil, List.take_nil, blit_nil, ok_bind]
      exact ⟨_, _, _, rfl, List.length_replicate .., noFile.symm⟩
  obtain ⟨code, temp, d', run, size, sameBytes⟩ := block
  have empty : memcpy out 0 temp (start % 512) 0 = .ok out := by
    have inTemp : start % 512 + 0 ≤ temp.length := by rw [Nat.add_zero, size]; omega
    rw [memcpy_ok inTemp (Nat.zero_le _), List.take_zero, overlay_nil]
  have visited : blocksVisited start 0 = 1 := by
    rcases blocksVisited_cases start 0 with ⟨_, across, _⟩ | ⟨_, across, _⟩ | ⟨_, _, one⟩
    · omega
    · omega
    · exact one
  have nothing : lastLength start 0 = 0 := Nat.le_zero.mp (lastLength_le start 0 visited)
  rw [mydiskRead_eq ready falls range gate, visited, nothing, readLoop, run, ok_bind]
  dsimp only
  rw [if_pos (And.intro rfl rfl), empty]
  exact ⟨d', rfl, sameBytes⟩

/-! ### What is served -/

/-- The promise of the interface: in range the bytes are copied to the front of the buffer and the call
returns 0, out of range the buffer stays and the call returns 1. -/
def ReadMeets (d : Disk) (unset start nbytes : Int) (out : List UInt8) : Prop :=
  (InRange d start nbytes → ∃ d', mydiskRead d unset start nbytes out =
      .ok (0, overlay out 0 ((d.thefile.bytes.drop start.toNat).take nbytes.toNat), d') ∧
    d'.thefile.bytes = d.thefile.bytes) ∧
  (¬ InRange d start nbytes → ∃ d', mydiskRead d unset start nbytes out = .ok (1, out, d') ∧
    d'.thefile.bytes = d.thefile.bytes)

/-- The last block that is read: the one where the request ends, or, when its parts before the first and behind the last
whole block make up a block, the one before. -/
def lastRead (start n : Nat) : Nat :=
  if start % 512 + n % 512 < 512 then (start + n - 1) / 512 else (start + n - 1) / 512 - 1

/-- How much of that block is copied, behind the part of the first block. -/
def tailLength (start n : Nat) : Nat := if (start + n) % 512 = 0 then n % 512 else (start + n) % 512

/-- The last block that is copied as a whole, to the front of the buffer. -/
def wholeRead (start n : Nat) : Nat := if tailLength start n = 0 then lastRead start n else lastRead start n - 1

/-- How far the copies reach. -/
def readReach (start n : Nat) : Nat :=
  if start % 512 + n ≤ 512 then n % 512
  else if start / 512 < wholeRead start n then max 512 (512 - start % 512 + tailLength start n)
  else if start / 512 < lastRead start n then 512 - start % 512 + tailLength start n
  else tailLength start n

/-- The start passes the gate of `checkParams`. A request of less than a block that runs into the next one does not take
more of the first than that has. The last block that is read begins like the second one of the request; the last block
that is read as a whole holds what belongs to the front of the buffer, except where the last one goes; and from where
the copies end, the buffer holds the bytes of the disk. -/
def ReadServes (bytes : List UInt8) (nblocks start n : Nat) (out : List UInt8) : Prop :=
  start ≤ nblocks * 511 ∧ (n < 512 → 512 < start % 512 + n → 2 * (start % 512) + n ≤ 1024) ∧
  (start / 512 < lastRead start n →
    ∀ j < tailLength start n, bytes[512 * lastRead start n + j]? = bytes[512 * (start / 512 + 1) + j]?) ∧
  (start / 512 < wholeRead start n → ∀ i < 512, i < 512 - start % 512 ∨ 512 - start % 512 + tailLength start n ≤ i →
    bytes[512 * wholeRead start n + i]? = bytes[start + i]?) ∧
  ∀ i < n, readReach start n ≤ i → out[i]? = bytes[start + i]?

theorem blocksVisited_eq {start n : Nat} (across : 512 < start % 512 + n) :
    blocksVisited start n = lastRead start n - start / 512 + 1 ∧ start / 512 ≤ lastRead start n ∧
      lastLength start n = tailLength start n := by
  have quotient : (start + n - 1) / 512 = start / 512 + (start % 512 + n - 1) / 512 := by omega
  unfold lastRead tailLength lastLength
  rcases blocksVisited_cases start n with ⟨inside, _, _, visited⟩ | ⟨inside, _, _, visited⟩ | ⟨_, short, _⟩
  · rw [inside, visited, if_pos rfl]
    refine ⟨?_, ?_, ?_⟩ <;> split <;> omega
  · rw [inside, visited, if_neg Bool.false_ne_true]
    refine ⟨?_, ?_, ?_⟩ <;> split <;> omega
  · omega

theorem lastCopied_inside {start n i : Nat} (short : start % 512 + n ≤ 512) :
    lastCopied start n i = if i < n % 512 then some (start + i) else none := by
  rcases blocksVisited_cases start n with ⟨_, across, _⟩ | ⟨_, across, _⟩ | ⟨inside, _, visited⟩
  · omega
  · omega
  · rw [lastCopied, if_pos visited, lastLength, inside, if_neg Bool.false_ne_true]

/-- Where the byte at `i` comes from, for a request that crosses the end of its first block. -/
theorem lastCopied_across {start n : Nat} (across : 512 < start % 512 + n) (i : Nat) : lastCopied start n i =
    if lastRead start n = start / 512 then if i < tailLength start n then some (start + i) else none
    else if 512 - start % 512 ≤ i ∧ i < 512 - start % 512 + tailLength start n then
      some (512 * lastRead start n + (i - (512 - start % 512)))
    else if i < 512 ∧ start / 512 < wholeRead start n then some (512 * wholeRead start n + i)
    else if i < 512 - start % 512 then some (start + i) else none := by
  obtain ⟨visited, behind, length⟩ := blocksVisited_eq across
  rw [lastCopied, length, visited]
  by_cases one : lastRead start n = start / 512
  · rw [if_pos (by omega), if_pos one]
  · have last : start / 512 + (lastRead start n - start / 512 + 1) - 1 = lastRead start n := by omega
    have several : decide (2 < lastRead start n - start / 512 + 1 ∨ tailLength start n = 0) =
        decide (start / 512 < wholeRead start n) := by
      unfold wholeRead
      refine decide_eq_decide.mpr ?_
      split <;> omega
    rw [if_neg (by omega), if_neg one, last, several, laterCopied]
    by_cases tail : 512 - start % 512 ≤ i ∧ i < 512 - start % 512 + tailLength start n
    · rw [if_pos ⟨by omega, tail⟩, if_pos tail]
    · rw [if_neg fun h => tail h.2, if_neg tail]
      by_cases front : i < 512 ∧ start / 512 < wholeRead start n
      · have whole : (if tailLength start n ≠ 0 then lastRead start n - 1 else lastRead start n) = wholeRead start n := by
          unfold wholeRead
          by_cases empty : tailLength start n = 0
          · rw [if_neg (not_not.mpr empty), if_pos empty]
          · rw [if_pos empty, if_neg empty]
        rw [if_pos ⟨front.1, decide_eq_true front.2⟩, if_pos front, whole]
      · rw [if_neg fun h => front ⟨h.1, of_decide_eq_true h.2⟩, if_neg front]

/-- A request whose copies all come from its first block. -/
theorem readServes_single_iff {bytes : List UInt8} {start n : Nat} (gate : start ≤ nblocks * 511)
    (inBlock : n < 512 → 512 < start % 512 + n → 2 * (start % 512) + n ≤ 1024) (single : lastRead start n ≤ start / 512)
    (copies : ∀ i < n, lastCopied start n i = if i < readReach start n then some (start + i) else none) :
    ReadServes bytes nblocks start n out ↔ ∀ i < n, pick bytes out (lastCopied start n i) i = bytes[start + i]? := by
  have whole : wholeRead start n ≤ start / 512 := by
    unfold wholeRead
    split <;> omega
  constructor
  · rintro ⟨-, -, -, -, rest⟩ i hi
    rw [copies i hi]
    by_cases reached : i < readReach start n
    · rw [if_pos reached]
      rfl
    · rw [if_neg reached]
      exact rest i hi (by omega)
  · intro same
    refine ⟨gate, inBlock, fun more => absurd more (by omega), fun more => absurd more (by omega), fun i hi unreached => ?_⟩
    have here := same i hi
    rw [copies i hi, if_neg (by omega)] at here
    exact here

theorem readServes_several_iff {bytes : List UInt8} {start n : Nat} (gate : start ≤ nblocks * 511)
    (inBlock : n < 512 → 512 < start % 512 + n → 2 * (start % 512) + n ≤ 1024) (across : 512 < start % 512 + n)
    (several : start / 512 < lastRead start n) :
    ReadServes bytes nblocks start n out ↔ ∀ i < n, pick bytes out (lastCopied start n i) i = bytes[start + i]? := by
  have copies := lastCopied_across across
  have reach : readReach start n = if start / 512 < wholeRead start n then max 512 (512 - start % 512 + tailLength start n)
      else 512 - start % 512 + tailLength start n := by
    rw [readReach, if_neg (by omega), if_pos several]
  have front : start / 512 < wholeRead start n → 512 ≤ n := by
    unfold wholeRead lastRead
    split <;> split <;> omega
  have tail : 512 - start % 512 + tailLength start n ≤ n := by
    unfold lastRead at several
    unfold tailLength
    split at several <;> split <;> omega
  simp only [if_neg (show ¬ lastRead start n = start / 512 by omega)] at copies
  constructor
  · rintro ⟨-, -, last, whole, rest⟩ i hi
    rw [copies]
    by_cases behind : 512 - start % 512 ≤ i ∧ i < 512 - start % 512 + tailLength start n
    · rw [if_pos behind, pick, last several _ (by omega)]
      exact congrArg (fun p => bytes[p]?) (by omega)
    rw [if_neg behind]
    by_cases middle : i < 512 ∧ start / 512 < wholeRead start n
    · rw [if_pos middle, pick]
      exact whole middle.2 i middle.1 (by omega)
    rw [if_neg middle]
    by_cases first : i < 512 - start % 512
    · rw [if_pos first]
      rfl
    · rw [if_neg first]
      refine rest i hi ?_
      rw [reach]
      split <;> omega
  · intro same
    refine ⟨gate, inBlock, fun _ j hj => ?_, fun more i hi outside => ?_, fun i hi unreached => ?_⟩
    · have here := same (512 - start % 512 + j) (by omega)
      rw [copies, if_pos (by omega), pick, Nat.add_sub_cancel_left] at here
      exact here.trans (congrArg (fun p => bytes[p]?) (by omega))
    · have long := front more
      have here := same i (by omega)
      rwa [copies, if_neg (by omega), if_pos ⟨hi, more⟩, pick] at here
    · rw [reach] at unreached
      have here := same i hi
      rwa [copies, if_neg (by split at unreached <;> omega), if_neg (by split at unreached <;> omega),
        if_neg (by split at unreached <;> omega), pick] at here

/-- The buffer is right after the copies exactly when the blocks repeat each other and the rest was right before. -/
theorem readServes_iff {bytes : List UInt8} {start n : Nat} (gate : start ≤ nblocks * 511)
    (inBlock : n < 512 → 512 < start % 512 + n → 2 * (start % 512) + n ≤ 1024) :
    ReadServes bytes nblocks start n out ↔ ∀ i < n, pick bytes out (lastCopied start n i) i = bytes[start + i]? := by
  by_cases across : 512 < start % 512 + n
  · obtain ⟨-, behind, -⟩ := blocksVisited_eq across
    by_cases several : start / 512 < lastRead start n
    · exact readServes_several_iff gate inBlock across several
    · refine readServes_single_iff gate inBlock (by omega) fun i hi => ?_
      have whole : ¬ start / 512 < wholeRead start n := by
        unfold wholeRead
        split <;> omega
      have reach : readReach start n = tailLength start n := by
        rw [readReach, if_neg (by omega), if_neg whole, if_neg several]
      rw [lastCopied_across across, if_pos (by omega), reach]
  · refine readServes_single_iff gate inBlock ?_ fun i hi => ?_
    · unfold lastRead
      split <;> omega
    · have reach : readReach start n = n % 512 := if_pos (by omega)
      rw [lastCopied_inside (by omega), reach]

/-- The only copy of a request stays in its block. -/
theorem single_copy_iff {start n : Nat} :
    (blocksVisited start n = 1 → start % 512 + lastLength start n ≤ 512) ↔
      (n < 512 → 512 < start % 512 + n → 2 * (start % 512) + n ≤ 1024) := by
  by_cases across : 512 < start % 512 + n
  · obtain ⟨visited, behind, length⟩ := blocksVisited_eq across
    rw [visited, length]
    unfold lastRead at behind ⊢
    unfold tailLength
    by_cases small : start % 512 + n % 512 < 512
    · rw [if_pos small] at behind ⊢
      split <;> omega
    · rw [if_neg small] at behind ⊢
      split <;> omega
  · rcases blocksVisited_cases start n with ⟨_, _, _⟩ | ⟨_, _, _⟩ | ⟨inside, _, visited⟩
    · omega
    · omega
    · rw [lastLength, inside, if_neg Bool.false_ne_true]
      omega

theorem lastCopied_eq_none {start n i : Nat} (outside : n ≤ i) : lastCopied start n i = none := by
  unfold lastCopied
  dsimp only
  split
  · rename_i single
    rw [if_neg (by have := lastLength_le start n single; omega)]
  · have shape := blocksVisited_cases start n
    have short : 512 - start % 512 + lastLength start n ≤ n := by
      unfold lastLength
      split <;> rename_i inside
      · omega
      · rcases shape with ⟨inside', _⟩ | ⟨_, _, _, _⟩ | ⟨_, _, _⟩
        · exact absurd inside' inside
        · omega
        · omega
    have whole : 2 < blocksVisited start n ∨ lastLength start n = 0 → 512 ≤ n := by
      unfold lastLength
      split <;> omega
    rw [laterCopied, if_neg (by omega), if_neg (by simp only [decide_eq_true_eq]; omega)]
    dsimp only
    rw [if_neg (by omega)]

theorem mydiskRead_inRange_iff {unset : Int} {start n : Nat} (ready : Ready d nblocks) (falls : unset ≠ 1)
    (range : start + n ≤ nblocks * 512) (room : n ≤ out.length) :
    (∃ d', mydiskRead d unset start n out =
        .ok (0, overlay out 0 ((d.thefile.bytes.drop start).take n), d') ∧
      d'.thefile.bytes = d.thefile.bytes) ↔ ReadServes d.thefile.bytes nblocks start n out := by
  have copied : ((d.thefile.bytes.drop start).take n).length = n := by simp [ready.size]; omega
  by_cases gate : start ≤ nblocks * 511
  · by_cases nothing : n = 0
    · subst nothing
      obtain ⟨d', run, same⟩ := @mydiskRead_empty d nblocks out unset start ready falls gate
      rw [run, List.take_zero, overlay_nil, readServes_iff gate fun _ across => by omega]
      exact iff_of_true ⟨d', rfl, same⟩ fun i none => absurd none (Nat.not_lt_zero i)
    · by_cases inBlock : blocksVisited start n = 1 → start % 512 + lastLength start n ≤ 512
      · obtain ⟨out', d', run, same, left⟩ := mydiskRead_picks ready falls range gate room inBlock nothing
        have result : out' = overlay out 0 ((d.thefile.bytes.drop start).take n) ↔
            ∀ i < n, pick d.thefile.bytes out (lastCopied start n i) i = d.thefile.bytes[start + i]? := by
          rw [List.ext_getElem?_iff]
          constructor
          · intro h i hi
            rw [← left i, h i, getElem?_overlay (by omega), copied, if_pos (by omega), getElem?_slice,
              if_pos (by omega), Nat.sub_zero]
          · intro h i
            rw [left i, getElem?_overlay (by omega), copied, getElem?_slice]
            by_cases hi : i < n
            · rw [h i hi, if_pos (by omega), if_pos (by omega), Nat.sub_zero]
            · rw [lastCopied_eq_none (by omega), if_neg (by omega)]; rfl
        rw [run, readServes_iff gate (single_copy_iff.mp inBlock), ← result]
        simp [same]
      · obtain ⟨single, outside⟩ := Classical.not_imp.mp inBlock
        have fault := @mydiskRead_undefined d nblocks out unset start n ready falls range gate single (by omega)
        rw [single_copy_iff] at inBlock
        simp [fault, ReadServes, inBlock]
  · have refused := (checkParams_eq_one_iff start n ready falls).mpr (Or.inr (by omega))
    simp [mydiskRead, refused, ReadServes, gate]

/-- For every request, `mydisk_read` keeps its promise exactly when the request is out of range or is
one that `ReadServes` describes. -/
theorem mydiskRead_meets_iff {unset start nbytes : Int} (ready : Ready d nblocks) (falls : unset ≠ 1)
    (room : InRange d start nbytes → nbytes ≤ out.length) :
    ReadMeets d unset start nbytes out ↔
      (InRange d start nbytes → ReadServes d.thefile.bytes nblocks start.toNat nbytes.toNat out) := by
  by_cases range : InRange d start nbytes
  · have bounds := range
    rw [InRange, ready.maxBlocks] at bounds
    obtain ⟨s, rfl⟩ := Int.eq_ofNat_of_zero_le bounds.1
    obtain ⟨n, rfl⟩ := Int.eq_ofNat_of_zero_le bounds.2.1
    simp only [ReadMeets, range, not_true_eq_false, true_imp_iff, false_imp_iff, and_true]
    exact mydiskRead_inRange_iff ready falls (by omega) (by have := room range; omega)
  · have refused := (checkParams_eq_one_iff _ _ ready falls).mpr (Or.inl range)
    simp [ReadMeets, range, mydiskRead, refused]

/-- The end of one block and the front of the next. -/
theorem mydiskRead_meets_across : ReadMeets (mydiskInit Disk.initial true 2 0).2 0 400 600 (List.replicate 600 7) :=
  (mydiskRead_meets_iff (mydiskInit_ready (n := 2) rfl (by decide) 0) (by decide)
    fun _ => by rw [List.length_replicate]; decide).mpr
    fun _ => ⟨by decide, fun short _ => absurd short (by decide), fun _ _ _ => rfl, fun more => absurd more (by decide),
      fun i hi unreached => by
        have reach : readReach (Int.toNat 400) (Int.toNat 600) = 600 := by decide
        rw [reach] at unreached
        exact absurd hi (Nat.not_lt.mpr unreached)⟩

theorem mydiskRead_misses_whole_block :
    ¬ ReadMeets (mydiskInit Disk.initial true 2 0).2 0 0 512 (List.replicate 512 7) := by
  intro meets
  have ready := mydiskInit_ready (d := Disk.initial) (n := 2) rfl (by decide) 0
  generalize hout : List.replicate 512 (7 : UInt8) = out at meets
  have room : out.length = 512 := by rw [← hout, List.length_replicate]
  have range : InRange (mydiskInit Disk.initial true 2 0).2 0 512 :=
    ⟨by decide, by decide, show (0 : Int) + 512 ≤ 2 * 512 by decide⟩
  obtain ⟨-, -, -, -, rest⟩ := (@mydiskRead_inRange_iff _ _ out 0 0 512 ready (by decide) (by omega) (by omega)).mp
    (meets.1 range)
  have first := rest 0 (by omega) (by decide)
  have zero : (mydiskInit Disk.initial true (2 : Nat) 0).2.thefile.bytes[0]? = some 0 := by
    have size : 0 < (512 * ((2 : Nat) : Int)).toNat := by decide
    simp only [mydiskInit, if_true, File.write, overlay, List.take_zero, List.nil_append,
      List.getElem?_append, List.length_replicate, size, if_true]
    rw [List.getElem?_replicate_of_lt size]
  have mine : out[0]? = some 7 := by
    rw [← hout, List.getElem?_replicate, if_pos (by decide)]
  rw [mine, Nat.zero_add, zero] at first
  cases first

end StorageStack.Mydisk
