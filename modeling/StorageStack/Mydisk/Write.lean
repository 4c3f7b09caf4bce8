import StorageStack.Mydisk.Blocks

/-!
# Writing a range

`mydisk_write` fills the first block from the start of the buffer and every later block from one
fixed place in it, and it stops one block early when the request's tail runs into a further block.
`mydiskWrite_meets_iff` says for which requests this still stores the buffer.
-/

namespace StorageStack.Mydisk
open Lib

variable {d : Disk} {nblocks : Nat} {buffer : List UInt8}

/-! ### The blocks after the first -/

theorem writeWhole_written {b len : Nat} (ready : Ready d nblocks) (h : b < nblocks)
    (source : len + 512 ≤ buffer.length) :
    ∃ d', writeWhole d b buffer len = .ok d' ∧
      Ready d' nblocks ∧
      Written d.thefile.bytes d'.thefile.bytes (512 * b) (512 * b + 512) (fun p => buffer[len + p % 512]?) := by
  have copied : ((buffer.drop len).take 512).length = 512 := by simp; omega
  have fits : 512 * b + ((buffer.drop len).take 512).length ≤ d.thefile.bytes.length := by
    have := ready.size; omega
  have run := written_overlay fits
  rw [copied] at run
  refine ⟨_, by rw [writeWhole, slice_ok source, ok_bind, mydiskWriteBlock_ok ready.sized h], ?_, run.congr ?_⟩
  · exact ready.store ((length_overlay fits).trans ready.size)
  · intro p low high
    rw [getElem?_slice, if_pos (by omega), show p - 512 * b = p % 512 by omega]

theorem patch_written {b pos start len : Nat} (ready : Ready d nblocks) (h : b < nblocks) (fits : pos + len ≤ 512)
    (source : start + len ≤ buffer.length) :
    ∃ d', patchBlock d b pos buffer start len = .ok d' ∧ Ready d' nblocks ∧
      Written d.thefile.bytes d'.thefile.bytes (512 * b + pos) (512 * b + pos + len)
        (fun p => buffer[start + (p - (512 * b + pos))]?) := by
  have copied : ((buffer.drop start).take len).length = len := by simp; omega
  have inside : 512 * b + pos + ((buffer.drop start).take len).length ≤ d.thefile.bytes.length := by
    have := ready.size; omega
  have run := written_overlay inside
  rw [copied] at run
  refine ⟨_, patchBlock_ok ready h fits source, ready.store ((length_overlay inside).trans ready.size), run.congr ?_⟩
  intro p low high
  rw [getElem?_slice, if_pos (by omega)]

/-- Where the loop over the blocks after the first stops. -/
def stop (b remaining rem : Nat) (partialEnd : Bool) : Nat :=
  if partialEnd then 512 * (b + remaining - 1) + rem else 512 * (b + remaining)

/-- After the first block, block by block the loop stores the same stretch of the buffer. -/
theorem writeLoop_written {offset len rem amount b remaining : Nat} {partialStart partialEnd : Bool}
    (ready : Ready d nblocks) (later : amount ≠ 0 ∨ partialStart = false) (range : b + remaining ≤ nblocks)
    (short : rem ≤ 512)
    (source : remaining ≠ 0 → 1 < remaining ∨ partialEnd = false → len + 512 ≤ buffer.length)
    (tail : partialEnd = true → len + rem ≤ buffer.length) :
    ∃ d', writeLoop offset len rem partialStart partialEnd buffer remaining amount b d = .ok d' ∧
      (remaining ≠ 0 → Written d.thefile.bytes d'.thefile.bytes (512 * b) (stop b remaining rem partialEnd)
        (fun p => buffer[len + p % 512]?)) ∧ (remaining = 0 → d' = d) := by
  induction remaining generalizing d amount b with
  | zero => exact ⟨d, rfl, by simp, fun _ => rfl⟩
  | succ remaining ih =>
    have notFirst : ¬ (amount = 0 ∧ partialStart = true) := by
      rintro ⟨h₁, h₂⟩
      rcases later with h | h
      · exact h h₁
      · rw [h] at h₂; cases h₂
    rw [writeLoop, if_neg notFirst]
    by_cases last : remaining = 0 ∧ partialEnd = true
    · obtain ⟨rfl, partialLast⟩ := last
      obtain ⟨d', run, _, written⟩ :=
        patch_written (b := b) ready (by omega) (by omega : 0 + rem ≤ 512) (tail partialLast)
      rw [if_pos ⟨rfl, partialLast⟩, run, ok_bind]
      refine ⟨d', rfl, fun _ => ?_, by simp⟩
      simp only [stop, partialLast, if_true, Nat.zero_add, Nat.add_sub_cancel, Nat.add_zero] at written ⊢
      exact written.congr fun p low high => by rw [show p % 512 = p - 512 * b by omega]
    · have whole : 1 < remaining + 1 ∨ partialEnd = false := by
        by_cases h : remaining = 0
        · exact Or.inr (by simpa [h] using last)
        · exact Or.inl (by omega)
      obtain ⟨d₁, run, ready₁, written₁⟩ := writeWhole_written (b := b) ready (by omega) (source (by omega) whole)
      rw [if_neg last, run, ok_bind]
      obtain ⟨d', run', written', done⟩ := @ih d₁ (amount + 1) (b + 1) ready₁ (Or.inl (by omega)) (by omega)
        (fun _ h => source (by omega) (h.imp (by omega) id))
      refine ⟨d', run', fun _ => ?_, by simp⟩
      by_cases h : remaining = 0
      · have full : partialEnd = false := by simpa [h] using last
        rw [done h, h, stop, full]
        simpa [Nat.mul_add] using written₁
      · refine written₁.append ?_ (by omega) ?_
        · have rest := written' h
          rw [show 512 * (b + 1) = 512 * b + 512 by omega] at rest
          rw [show stop b (remaining + 1) rem partialEnd = stop (b + 1) remaining rem partialEnd by
            unfold stop; split <;> omega]
          exact rest
        · unfold stop; split <;> omega

theorem writeWhole_undefined {b len : Nat} (outside : buffer.length < len + 512) :
    writeWhole d b buffer len = .error .undefined := by
  rw [writeWhole, slice, if_neg (by omega), error_bind]

/-! ### The call -/

/-- The requests the interface promises to serve. -/
def InRange (d : Disk) (start nbytes : Int) : Prop :=
  0 ≤ start ∧ 0 ≤ nbytes ∧ start + nbytes ≤ d.maxBlocks * 512

theorem checkParams_eq_one_iff {unset : Int} (start nbytes : Int) (ready : Ready d nblocks) (falls : unset ≠ 1) :
    checkParams d unset start nbytes = 1 ↔ ¬ InRange d start nbytes ∨ (nblocks : Int) * 511 < start := by
  have capacity := ready.maxBlocks
  unfold checkParams InRange
  rw [capacity]
  split
  · simp; omega
  split
  · simp; omega
  split
  · simp; omega
  split
  · simp; omega
  · simp only [falls, false_iff]; omega

theorem checkParams_ne_one {unset : Int} {start n : Nat} (ready : Ready d nblocks) (falls : unset ≠ 1)
    (range : start + n ≤ nblocks * 512) (gate : start ≤ nblocks * 511) :
    ¬ checkParams d unset start n = 1 := by
  have capacity := ready.maxBlocks
  rw [checkParams_eq_one_iff _ _ ready falls, InRange, capacity]
  omega

/-- The buffer position whose byte `mydisk_write` aims at file position `p`. -/
def sourceOf (start p : Nat) : Nat :=
  if start % 512 ≠ 0 ∧ p / 512 = start / 512 then p - start else 512 - start % 512 + p % 512

/-- The file position where `mydisk_write` stops. -/
def writeEnd (start n : Nat) : Nat :=
  start - start % 512 + max 512 (512 * (n / 512) + (start % 512 + n) % 512)

/-- The copies of `mydisk_write` stay inside the buffer: the first block takes the rest of a block, or,
when the start is aligned, 512 bytes that lie after the first 512. -/
def SourceFits (start n : Nat) : Prop :=
  if start % 512 = 0 then 1024 ≤ n else 512 - start % 512 ≤ n

/-- Does the request run past its first block, and does it then end inside a block? -/
def endsInside (start n : Nat) : Bool :=
  decide (n + start % 512 > 512 ∧ (start % 512 + n) % 512 ≠ 0)

/-- How many blocks `mydisk_write` visits. -/
def blocksVisited (start n : Nat) : Nat :=
  if n + start % 512 > 512 then n / 512 + (if endsInside start n then 1 else 0) else 1

theorem blocksVisited_cases (start n : Nat) :
    (endsInside start n = true ∧ 512 < n + start % 512 ∧ (start % 512 + n) % 512 ≠ 0 ∧
      blocksVisited start n = n / 512 + 1) ∨
    (endsInside start n = false ∧ 512 < n + start % 512 ∧ (start % 512 + n) % 512 = 0 ∧
      blocksVisited start n = n / 512) ∨
    (endsInside start n = false ∧ n + start % 512 ≤ 512 ∧ blocksVisited start n = 1) := by
  unfold blocksVisited endsInside
  by_cases across : n + start % 512 > 512
  · by_cases whole : (start % 512 + n) % 512 = 0
    · exact Or.inr (Or.inl ⟨by simp [whole], across, whole, by simp [across, whole]⟩)
    · have inside := And.intro across whole
      exact Or.inl ⟨decide_eq_true inside, across, whole, by rw [if_pos across, if_pos (decide_eq_true inside)]⟩
  · exact Or.inr (Or.inr ⟨by simp [across], by omega, by simp [across]⟩)

theorem mydiskWrite_eq {unset : Int} {start n : Nat} (ready : Ready d nblocks) (falls : unset ≠ 1)
    (range : start + n ≤ nblocks * 512) (gate : start ≤ nblocks * 511) :
    mydiskWrite d unset start n buffer =
      (writeLoop (start % 512) (512 - start % 512) ((start % 512 + n) % 512) (decide (start % 512 ≠ 0))
        (endsInside start n) buffer (blocksVisited start n) 0 (start / 512) d).map fun d' => (0, d') := by
  rw [mydiskWrite, if_neg (checkParams_ne_one ready falls range gate)]
  rfl

/-- An aligned request of at least two blocks: every block comes from the same 512 bytes. -/
theorem mydiskWrite_aligned {unset : Int} {start n : Nat} (ready : Ready d nblocks) (falls : unset ≠ 1)
    (range : start + n ≤ nblocks * 512) (gate : start ≤ nblocks * 511) (size : buffer.length = n)
    (aligned : start % 512 = 0) (long : 1024 ≤ n) :
    ∃ d', mydiskWrite d unset start n buffer = .ok (0, d') ∧
      Written d.thefile.bytes d'.thefile.bytes start (writeEnd start n) (fun p => buffer[sourceOf start p]?) := by
  have shape := blocksVisited_cases start n
  obtain ⟨d', run, written, _⟩ := @writeLoop_written d nblocks buffer (start % 512) (512 - start % 512)
    ((start % 512 + n) % 512) 0 (start / 512) (blocksVisited start n) (decide (start % 512 ≠ 0))
    (endsInside start n) ready (Or.inr (by simp [aligned])) (by omega) (by omega)
    (fun _ _ => by omega) (fun _ => by omega)
  have last : stop (start / 512) (blocksVisited start n) ((start % 512 + n) % 512) (endsInside start n) =
      writeEnd start n := by
    unfold stop writeEnd
    rcases shape with ⟨inside, _, _, visited⟩ | ⟨inside, _, _, visited⟩ | ⟨_, short, _⟩
    · rw [inside, visited, if_pos rfl]; omega
    · rw [inside, visited, if_neg Bool.false_ne_true]; omega
    · omega
  refine ⟨d', by rw [mydiskWrite_eq ready falls range gate, run]; rfl, ?_⟩
  have reach := written (by omega)
  rw [last, show 512 * (start / 512) = start by omega] at reach
  exact reach.congr fun p _ _ => by rw [sourceOf, if_neg (by omega)]

/-- An unaligned request: the first block takes what it should, every later one the bytes that the
second should take. -/
theorem mydiskWrite_unaligned {unset : Int} {start n : Nat} (ready : Ready d nblocks) (falls : unset ≠ 1)
    (range : start + n ≤ nblocks * 512) (gate : start ≤ nblocks * 511) (size : buffer.length = n)
    (offset : start % 512 ≠ 0) (long : 512 - start % 512 ≤ n) :
    ∃ d', mydiskWrite d unset start n buffer = .ok (0, d') ∧
      Written d.thefile.bytes d'.thefile.bytes start (writeEnd start n) (fun p => buffer[sourceOf start p]?) := by
  have shape := blocksVisited_cases start n
  obtain ⟨later, visited⟩ : ∃ later, blocksVisited start n = later + 1 :=
    ⟨blocksVisited start n - 1, by omega⟩
  rw [visited] at shape
  obtain ⟨d₁, run₁, ready₁, written₁⟩ := @patch_written d nblocks buffer (start / 512) (start % 512) 0
    (512 - start % 512) ready (by omega) (by omega) (by omega)
  rw [show 512 * (start / 512) + start % 512 + (512 - start % 512) = 512 * (start / 512 + 1) by omega,
    show 512 * (start / 512) + start % 512 = start by omega] at written₁
  have first : Written d.thefile.bytes d₁.thefile.bytes start (512 * (start / 512 + 1))
      (fun p => buffer[sourceOf start p]?) :=
    written₁.congr fun p low high => by rw [sourceOf, if_pos ⟨offset, by omega⟩, Nat.zero_add]
  obtain ⟨d', run, written, same⟩ := @writeLoop_written d₁ nblocks buffer (start % 512) (512 - start % 512)
    ((start % 512 + n) % 512) 1 (start / 512 + 1) later (decide (start % 512 ≠ 0))
    (endsInside start n) ready₁ (Or.inl (by omega)) (by omega) (by omega)
    (fun some whole => by
      rcases shape with ⟨inside, _, _, visited⟩ | ⟨_, _, _, visited⟩ | ⟨_, _, visited⟩
      · have several : 1 < later := whole.resolve_right (by simp [inside])
        omega
      · omega
      · omega)
    (fun h => by omega)
  refine ⟨d', ?_, ?_⟩
  · rw [mydiskWrite_eq ready falls range gate, visited, writeLoop, if_pos ⟨rfl, by simp [offset]⟩, run₁, ok_bind]
    exact congrArg _ run
  by_cases none : later = 0
  · rw [same none, show writeEnd start n = 512 * (start / 512 + 1) by unfold writeEnd; omega]
    exact first
  · have last : stop (start / 512 + 1) later ((start % 512 + n) % 512) (endsInside start n) = writeEnd start n := by
      unfold stop writeEnd
      rcases shape with ⟨inside, _⟩ | ⟨inside, _⟩ | ⟨inside, _⟩
      · rw [inside, if_pos rfl]; omega
      · rw [inside, if_neg Bool.false_ne_true]; omega
      · omega
    have rest := written none
    rw [last] at rest
    have tail : Written d₁.thefile.bytes d'.thefile.bytes (512 * (start / 512 + 1)) (writeEnd start n)
        (fun p => buffer[sourceOf start p]?) :=
      rest.congr fun p low high => by rw [sourceOf, if_neg (by omega)]
    exact first.append tail (by omega) (by unfold writeEnd; omega)

theorem mydiskWrite_undefined {unset : Int} {start n : Nat} (ready : Ready d nblocks) (falls : unset ≠ 1)
    (range : start + n ≤ nblocks * 512) (gate : start ≤ nblocks * 511) (size : buffer.length = n)
    (outside : ¬ SourceFits start n) : mydiskWrite d unset start n buffer = .error .undefined := by
  have shape := blocksVisited_cases start n
  obtain ⟨later, visited⟩ : ∃ later, blocksVisited start n = later + 1 :=
    ⟨blocksVisited start n - 1, by omega⟩
  rw [mydiskWrite_eq ready falls range gate, visited, writeLoop]
  rw [visited] at shape
  unfold SourceFits at outside
  by_cases aligned : start % 512 = 0
  · rw [if_pos aligned] at outside
    have notLast : ¬ (later = 0 ∧ endsInside start n = true) := by
      rintro ⟨rfl, inside⟩
      rcases shape with ⟨_, _, _, _⟩ | ⟨inside', _⟩ | ⟨inside', _⟩
      · omega
      · simp [inside'] at inside
      · simp [inside'] at inside
    rw [if_neg (by simp [aligned]), if_neg notLast, writeWhole_undefined (by omega)]
    rfl
  · rw [if_neg aligned] at outside
    have inside : start / 512 < nblocks := by
      rcases Nat.lt_or_ge (start / 512) nblocks with h | h <;> omega
    rw [if_pos ⟨rfl, by simp [aligned]⟩, patchBlock_undefined ready inside (by omega)]
    rfl

/-! ### What is served -/

/-- The promise of the interface: in range the bytes are replaced and the call returns 0, out of range
the disk stays and the call returns 1. -/
def WriteMeets (d : Disk) (unset start nbytes : Int) (buffer : List UInt8) : Prop :=
  (InRange d start nbytes → ∃ d', mydiskWrite d unset start nbytes buffer = .ok (0, d') ∧
    d'.thefile.bytes = overlay d.thefile.bytes start.toNat buffer) ∧
  (¬ InRange d start nbytes → ∃ d', mydiskWrite d unset start nbytes buffer = .ok (1, d') ∧
    d'.thefile.bytes = d.thefile.bytes)

/-- The start passes the gate of `checkParams`, no copy leaves the buffer, and past the first block
the buffer repeats the 512 bytes every block is filled from; where the loop stops before the end of
the request, the disk already holds the rest. -/
def WriteServes (bytes : List UInt8) (nblocks start : Nat) (buffer : List UInt8) : Prop :=
  start ≤ nblocks * 511 ∧ SourceFits start buffer.length ∧
  ∀ i < buffer.length, start % 512 = 0 ∨ 512 - start % 512 ≤ i →
    buffer[i]? =
      if start % 512 + buffer.length % 512 < 512 ∨ i + 512 < buffer.length then
        buffer[512 - start % 512 + (start + i) % 512]?
      else bytes[start + i]?

theorem mydiskWrite_written {unset : Int} {start n : Nat} (ready : Ready d nblocks) (falls : unset ≠ 1)
    (range : start + n ≤ nblocks * 512) (gate : start ≤ nblocks * 511) (size : buffer.length = n)
    (fits : SourceFits start n) :
    ∃ d', mydiskWrite d unset start n buffer = .ok (0, d') ∧
      Written d.thefile.bytes d'.thefile.bytes start (writeEnd start n) (fun p => buffer[sourceOf start p]?) := by
  unfold SourceFits at fits
  by_cases aligned : start % 512 = 0
  · rw [if_pos aligned] at fits
    exact mydiskWrite_aligned ready falls range gate size aligned fits
  · rw [if_neg aligned] at fits
    exact mydiskWrite_unaligned ready falls range gate size aligned fits

theorem writeServes_iff {bytes : List UInt8} {start : Nat} (gate : start ≤ nblocks * 511)
    (fits : SourceFits start buffer.length) :
    WriteServes bytes nblocks start buffer ↔
      ∀ i < buffer.length, buffer[i]? =
        if start + i < writeEnd start buffer.length then buffer[sourceOf start (start + i)]?
        else bytes[start + i]? := by
  have long := fits
  unfold SourceFits at long
  rw [WriteServes, and_iff_right gate, and_iff_right fits]
  apply forall₂_congr
  intro i hi
  have reach : start + i < writeEnd start buffer.length ↔
      (start % 512 ≠ 0 ∧ i < 512 - start % 512) ∨
        start % 512 + buffer.length % 512 < 512 ∨ i + 512 < buffer.length := by
    unfold writeEnd
    split at long <;> omega
  by_cases first : start % 512 ≠ 0 ∧ i < 512 - start % 512
  · have own : sourceOf start (start + i) = i := by
      rw [sourceOf, if_pos ⟨first.1, by omega⟩, Nat.add_sub_cancel_left]
    have excluded : ¬ (start % 512 = 0 ∨ 512 - start % 512 ≤ i) := by omega
    simp only [own, reach.mpr (Or.inl first), if_true, excluded, false_imp_iff]
  · have shared : sourceOf start (start + i) = 512 - start % 512 + (start + i) % 512 := by
      rw [sourceOf, if_neg (by omega)]
    rw [shared, imp_iff_right (by omega)]
    simp only [reach, first, false_or]

theorem mydiskWrite_inRange_iff {unset : Int} {start : Nat} (ready : Ready d nblocks) (falls : unset ≠ 1)
    (range : start + buffer.length ≤ nblocks * 512) :
    (∃ d', mydiskWrite d unset start buffer.length buffer = .ok (0, d') ∧
      d'.thefile.bytes = overlay d.thefile.bytes start buffer) ↔
      WriteServes d.thefile.bytes nblocks start buffer := by
  by_cases gate : start ≤ nblocks * 511
  · by_cases fits : SourceFits start buffer.length
    · obtain ⟨d₁, run, written⟩ := mydiskWrite_written ready falls range gate rfl fits
      have long := fits
      unfold SourceFits at long
      have inside : writeEnd start buffer.length ≤ start + buffer.length := by
        unfold writeEnd
        split at long <;> omega
      rw [run, writeServes_iff gate fits, ← written.eq_overlay_iff (by rw [ready.size]; exact range) inside]
      simp
    · have fault := @mydiskWrite_undefined d nblocks buffer unset start buffer.length ready falls range gate rfl fits
      simp [fault, WriteServes, fits]
  · have refused := (checkParams_eq_one_iff start buffer.length ready falls).mpr
      (Or.inr (by omega))
    simp [mydiskWrite, refused, WriteServes, gate]

/-- For every request, `mydisk_write` keeps its promise exactly when the request is out of range or is
one that `WriteServes` describes. -/
theorem mydiskWrite_meets_iff {unset start nbytes : Int} (ready : Ready d nblocks) (falls : unset ≠ 1)
    (size : 0 ≤ nbytes → (buffer.length : Int) = nbytes) :
    WriteMeets d unset start nbytes buffer ↔
      (InRange d start nbytes → WriteServes d.thefile.bytes nblocks start.toNat buffer) := by
  by_cases range : InRange d start nbytes
  · have bounds := range
    rw [InRange, ready.maxBlocks] at bounds
    obtain ⟨s, rfl⟩ := Int.eq_ofNat_of_zero_le bounds.1
    obtain rfl := size bounds.2.1
    simp only [WriteMeets, range, not_true_eq_false, true_imp_iff, false_imp_iff, and_true]
    exact mydiskWrite_inRange_iff ready falls (by omega)
  · have refused := (checkParams_eq_one_iff _ _ ready falls).mpr (Or.inl range)
    simp [WriteMeets, range, mydiskWrite, refused]

theorem mydiskWrite_meets_to_block_end :
    WriteMeets (mydiskInit Disk.initial true 2 0).2 0 500 12 (List.replicate 12 7) :=
  (mydiskWrite_meets_iff (mydiskInit_ready (n := 2) rfl (by decide) 0) (by decide) (by decide)).mpr
    fun _ => ⟨by decide, by simp [SourceFits], by simp; omega⟩

theorem mydiskWrite_misses_first_block :
    ¬ WriteMeets (mydiskInit Disk.initial true 2 0).2 0 0 1024
      (List.replicate 512 1 ++ List.replicate 512 2) := by
  intro meets
  have ready := mydiskInit_ready (d := Disk.initial) (n := 2) rfl (by decide) 0
  generalize hbuf : List.replicate 512 (1 : UInt8) ++ List.replicate 512 2 = buffer at meets
  have size : buffer.length = 1024 := by
    rw [← hbuf, List.length_append, List.length_replicate, List.length_replicate]
  have range : InRange (mydiskInit Disk.initial true 2 0).2 0 1024 :=
    ⟨by decide, by decide, show (0 : Int) + 1024 ≤ 2 * 512 by decide⟩
  have served := meets.1 range
  rw [show (1024 : Int) = (buffer.length : Int) by rw [size]; rfl] at served
  obtain ⟨_, _, copied⟩ := (@mydiskWrite_inRange_iff _ _ buffer 0 0 ready (by decide) (by omega)).mp served
  have first := copied 0 (by omega) (Or.inl rfl)
  have front : (List.replicate 512 (1 : UInt8)).length = 512 := List.length_replicate
  rw [if_pos (by omega), ← hbuf, List.getElem?_append_left (by omega), List.getElem?_append_right (by omega), front,
    List.getElem?_replicate, List.getElem?_replicate] at first
  simp at first

end StorageStack.Mydisk
