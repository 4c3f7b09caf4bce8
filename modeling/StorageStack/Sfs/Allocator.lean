import StorageStack.Sfs.DirectoryList

/-!
# Exact allocation

The two encodings of a block id agree: allocation searches words and bits, freeing divides, and what one
sets the other clears. Successive allocations go upwards through the clear bits.
-/

namespace StorageStack.Sfs
open Lib

/-- One freemap block is loaded, with the bits of the superblock and of the freemap itself set. -/
structure FreemapLoaded (s : State) : Prop where
  one : nfreemapBlocks s.sb = 1
  superblock : (s.disk.read 1).bit 0 = true
  freemap : (s.disk.read 1).bit 1 = true

/-- `b` was the least clear block and is in use after the step. -/
structure Allocated (s : State) (b : Nat) (s' : State) : Prop where
  clear : b < 4096 ∧ (s.disk.read 1).bit b = false
  least : ∀ c < b, (s.disk.read 1).bit c = true
  bits : ∀ c, (s'.disk.read 1).bit c = ((s.disk.read 1).bit c || decide (c = b))
  memory : s'.freemap = s'.disk.read 1
  zeroed : s'.disk.read b = .zero
  kept : ∀ c, c % 8388608 ≠ 1 → c % 8388608 ≠ b → s'.disk.read c = s.disk.read c
  sb : s'.sb = s.sb
  fdtable : s'.fdtable = s.fdtable

/-- Only the bit of `b` is cleared by the step, and only in the freemap. -/
structure Freed (s : State) (b : Nat) (s' : State) : Prop where
  bits : ∀ c, (s'.disk.read 1).bit c = ((s.disk.read 1).bit c && decide (c ≠ b))
  memory : s'.freemap = s'.disk.read 1
  kept : ∀ c, c % 8388608 ≠ 1 → s'.disk.read c = s.disk.read c
  sb : s'.sb = s.sb
  fdtable : s'.fdtable = s.fdtable

/-- `n` allocations, one after the other. -/
def allocMany : Nat → State → Outcome (List Nat × State)
  | 0, s => .ok ([], s)
  | n + 1, s => do
    let (b, s) ← sfsAllocBlock s
    let (bs, s) ← allocMany n s
    .ok (b :: bs, s)

section
variable {s s' : State} {b : Nat}

theorem FreemapLoaded.ne_one (loaded : FreemapLoaded s) (clear : (s.disk.read 1).bit b = false) : b ≠ 1 := by
  intro same
  rw [same, loaded.freemap] at clear
  cases clear

theorem FreemapLoaded.after (loaded : FreemapLoaded s) (alloc : Allocated s b s') : FreemapLoaded s' where
  one := alloc.sb ▸ loaded.one
  superblock := by rw [alloc.bits, loaded.superblock, Bool.true_or]
  freemap := by rw [alloc.bits, loaded.freemap, Bool.true_or]

theorem allocated_take (loaded : FreemapLoaded s) (hb : b < 4096) (clear : (s.disk.read 1).bit b = false)
    (least : ∀ c < b, (s.disk.read 1).bit c = true) : Allocated s b (s.take b) where
  clear := ⟨hb, clear⟩
  least := least
  bits c := by rw [read_take_map hb (loaded.ne_one clear), Bytes.bit_setBit _ (by omega)]
  memory := take_freemap hb (loaded.ne_one clear)
  zeroed := read_take_self s b
  kept c map other := by
    rw [State.take, Image.read_write_of_ne _ _ (by omega), Image.read_write_of_ne _ _ (by omega)]
  sb := rfl
  fdtable := rfl

theorem freed_release (s : State) (hb : b < 4096) : Freed s b (s.release b) where
  bits c := by rw [read_release_map, Bytes.bit_clearBit _ (by omega)]
  memory := (read_release_map s b).symm
  kept c map := by rw [State.release, Image.read_write_of_ne _ _ (by omega)]
  sb := rfl
  fdtable := rfl

theorem sfsAllocBlock_allocated (loaded : FreemapLoaded s) (some : ∃ c < 4096, (s.disk.read 1).bit c = false) :
    ∃ b s', sfsAllocBlock s = .ok (b, s') ∧ Allocated s b s' := by
  obtain ⟨c, hc, clear⟩ := some
  have nonzero : nfreemapBlocks s.sb ≠ 0 := by rw [loaded.one]; decide
  obtain ⟨b, run, hb, clear, least⟩ := sfsAllocBlock_ok nonzero (Bytes.clearCount_pos (by omega) clear)
  exact ⟨b, s.take b, run, allocated_take loaded hb clear least⟩

theorem sfsFreeBlock_freed (s : State) (hb : b < 4096) : ∃ s', sfsFreeBlock s b = .ok s' ∧ Freed s b s' :=
  ⟨s.release b, sfsFreeBlock_ok s hb, freed_release s hb⟩

theorem Allocated.clearCount (alloc : Allocated s b s') :
    (s'.disk.read 1).clearCount + 1 = (s.disk.read 1).clearCount := by
  have bits : s'.disk.read 1 = (s.disk.read 1).setBit b := by
    apply Bytes.ext_bit
    intro c
    rw [alloc.bits, Bytes.bit_setBit _ (by have := alloc.clear.1; omega)]
  rw [bits]
  exact Bytes.clearCount_setBit (by have := alloc.clear.1; omega) alloc.clear.2

/-- The freemap is what it was before the allocation, in memory and on the disk. -/
theorem Freed.restores {s'' : State} (alloc : Allocated s b s') (freed : Freed s' b s'') :
    s''.disk.read 1 = s.disk.read 1 ∧ s''.freemap = s.disk.read 1 := by
  have same : s''.disk.read 1 = s.disk.read 1 := by
    apply Bytes.ext_bit
    intro c
    rw [freed.bits, alloc.bits]
    by_cases this : c = b
    · simp [this, alloc.clear.2]
    · simp [this]
  exact ⟨same, freed.memory.trans same⟩

theorem Allocated.lt_of_clear (alloc : Allocated s b s') {c : Nat} (clear : (s'.disk.read 1).bit c = false) :
    b < c ∧ (s.disk.read 1).bit c = false := by
  rw [alloc.bits, Bool.or_eq_false_iff, decide_eq_false_iff_not] at clear
  obtain ⟨clear, other⟩ := clear
  refine ⟨?_, clear⟩
  by_contra below
  rw [alloc.least c (by omega)] at clear
  cases clear

/-- Ids that were all clear come out in increasing order. -/
theorem allocMany_ok {n : Nat} (loaded : FreemapLoaded s) (room : n ≤ (s.disk.read 1).clearCount) :
    ∃ bs s', allocMany n s = .ok (bs, s') ∧ bs.length = n ∧ bs.Pairwise (· < ·) ∧
      (∀ b ∈ bs, b < 4096 ∧ (s.disk.read 1).bit b = false) ∧
      ∀ c, (s'.disk.read 1).bit c = ((s.disk.read 1).bit c || decide (c ∈ bs)) := by
  induction n generalizing s with
  | zero => exact ⟨[], s, rfl, rfl, .nil, fun b m => absurd m List.not_mem_nil, fun c => by simp⟩
  | succ n ih =>
    have free : 0 < (s.disk.read 1).clearCount := Nat.lt_of_lt_of_le (Nat.succ_pos n) room
    obtain ⟨b, s₁, run, alloc⟩ := sfsAllocBlock_allocated loaded (Bytes.exists_clear free)
    have count := alloc.clearCount
    obtain ⟨bs, s', runs, length, increasing, clear, bits⟩ := ih (loaded.after alloc) (by omega)
    refine ⟨b :: bs, s', ?_, by rw [List.length_cons, length], ?_, ?_, ?_⟩
    · rw [allocMany, run, ok_bind]
      dsimp only
      rw [runs, ok_bind]
    · exact List.pairwise_cons.mpr ⟨fun c m => (alloc.lt_of_clear (clear c m).2).1, increasing⟩
    · intro c m
      rcases List.mem_cons.mp m with rfl | m
      · exact alloc.clear
      · exact ⟨(clear c m).1, (alloc.lt_of_clear (clear c m).2).2⟩
    · intro c
      rw [bits, alloc.bits, Bool.or_assoc, ← Bool.decide_or]
      simp only [List.mem_cons]

/-- Allocation and freeing are exact and inverse to each other. -/
theorem allocation_exact (loaded : FreemapLoaded s) :
    ((∃ c < 4096, (s.disk.read 1).bit c = false) →
      ∃ b s', sfsAllocBlock s = .ok (b, s') ∧ Allocated s b s' ∧
        ∃ s'', sfsFreeBlock s' b = .ok s'' ∧ s''.disk.read 1 = s.disk.read 1 ∧ s''.freemap = s.disk.read 1) ∧
    (∀ b, 2 ≤ b → b < 4096 → ∃ s', sfsFreeBlock s b = .ok s' ∧ Freed s b s') ∧
    ∀ n ≤ (s.disk.read 1).clearCount, ∃ bs s', allocMany n s = .ok (bs, s') ∧ bs.length = n ∧ bs.Pairwise (· < ·) ∧
      ∀ b ∈ bs, b < 4096 ∧ (s.disk.read 1).bit b = false := by
  refine ⟨fun some => ?_, fun b _ hb => sfsFreeBlock_freed s hb, fun n room => ?_⟩
  · obtain ⟨b, s', run, alloc⟩ := sfsAllocBlock_allocated loaded some
    obtain ⟨s'', freeRun, freed⟩ := sfsFreeBlock_freed s' alloc.clear.1
    exact ⟨b, s', run, alloc, s'', freeRun, freed.restores alloc⟩
  · obtain ⟨bs, s', run, length, increasing, clear, bits⟩ := allocMany_ok loaded room
    exact ⟨bs, s', run, length, increasing, clear⟩

end

theorem loaded_start (s : State) : FreemapLoaded (start s) where
  one := by rw [sb_start, (formatted_words _).2.2.1]
  superblock := by rw [bit_start]; rfl
  freemap := by rw [bit_start]; rfl

theorem clearCount_start (s : State) : 4094 ≤ ((start s).disk.read 1).clearCount := by
  have count : 8 * 512 ≤ ((start s).disk.read 1).clearCount + 2 := by
    refine @Bytes.le_clearCount_of_bits 512 _ [0, 1] fun b _ set => ?_
    rw [bit_start] at set
    simpa using set
  omega

/-- A fresh file system hands out all its blocks. -/
theorem allocation_exact_start : ∃ bs s', allocMany 4094 (start .initial) = .ok (bs, s') ∧ bs.length = 4094 ∧
    bs.Pairwise (· < ·) ∧ ∀ b ∈ bs, b < 4096 ∧ ((start .initial).disk.read 1).bit b = false :=
  (allocation_exact (loaded_start .initial)).2.2 4094 (clearCount_start .initial)

end StorageStack.Sfs
