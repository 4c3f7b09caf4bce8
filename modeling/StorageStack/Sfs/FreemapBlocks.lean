import StorageStack.Sfs.Allocator

/-!
# Several freemap blocks

The first version of the file system means to have a freemap of any number of blocks: bit `i` of freemap block `f` stands
for block `f * 4096 + i`. The code searches and divides for one block only, and its flush writes the one block it has in
memory over all blocks of the freemap but the last.
-/

namespace StorageStack.Sfs.Pa2
open Lib

/-! ### The calls -/

/-- The writes of the loop behind its first one. -/
def flushFrom (freemap : Block) : (remaining bid : Nat) → Image → Image
  | 0, _, d => d
  | remaining + 1, bid, d => flushFrom freemap remaining (bid + 1) (d.write bid freemap)

/-- The body of the loop runs once before its test. -/
def sfsFlushFreemap (s : State) : State :=
  { s with disk := flushFrom s.freemap (nfreemapBlocks s.sb - 2) 2 (s.disk.write 1 s.freemap) }

/-- Mark a block, flush the freemap and clear the block's contents. -/
def takeBlock (s : State) (fmByte count : Nat) : Nat × State :=
  let freemap := s.freemap.setWord fmByte (s.freemap.word fmByte ||| 1 <<< count)
  let s := sfsFlushFreemap { s with freemap }
  let freeBlockId := fmByte * 32 + count
  (freeBlockId, { s with disk := s.disk.write freeBlockId .zero })

/-- The loop over the freemap blocks. The search inside a block is the one of the later version. -/
def allocFrom : (remaining fmBlk : Nat) → State → Outcome (Nat × State)
  | 0, _, s => .ok (0, s)
  | remaining + 1, fmBlk, s => do
    let s := { s with freemap := s.disk.read (fmBlk + 1) }
    match ← findEntry s.freemap 512 0 with
    | some (fmByte, count) => .ok (takeBlock s fmByte count)
    | none => allocFrom remaining (fmBlk + 1) s

def sfsAllocBlock (s : State) : Outcome (Nat × State) := allocFrom (nfreemapBlocks s.sb) 0 s

def sfsFreeBlock (s : State) (bid : Nat) : Outcome State :=
  let freemap := s.disk.read (bid / 4096 + 1)
  if bid / 32 < 128 then
    let bitmap := freemap.word (bid / 32) &&& (0xffffffff ^^^ 1 <<< (bid % 32))
    .ok (sfsFlushFreemap { s with freemap := freemap.setWord (bid / 32) bitmap })
  else .error .undefined

/-! ### The bitmap -/

/-- The bit of block `id`, in the freemap block that holds it. -/
def bitAt (d : Image) (id : Nat) : Bool := (d.read (id / 4096 + 1)).bit (id % 4096)

/-- Block `c` is none of the freemap blocks. -/
def OutsideFreemap (s : State) (c : Nat) : Prop :=
  ∀ f, 1 ≤ f → f ≤ nfreemapBlocks s.sb → c % 8388608 ≠ f % 8388608

/-- `b` was the least clear id of the whole bitmap, its bit is the only one that changed, and beside the freemap only the
block itself did. -/
structure Allocated (s : State) (b : Nat) (s' : State) : Prop where
  inside : b < nfreemapBlocks s.sb * 4096
  clear : bitAt s.disk b = false
  least : ∀ c < b, bitAt s.disk c = true
  bits : ∀ c < nfreemapBlocks s.sb * 4096, bitAt s'.disk c = (bitAt s.disk c || decide (c = b))
  kept : ∀ c, OutsideFreemap s c → c % 8388608 ≠ b → s'.disk.read c = s.disk.read c

/-- Only the bit of `b` is cleared. -/
structure Freed (s : State) (b : Nat) (s' : State) : Prop where
  bits : ∀ c < nfreemapBlocks s.sb * 4096, bitAt s'.disk c = (bitAt s.disk c && decide (c ≠ b))
  kept : ∀ c, OutsideFreemap s c → s'.disk.read c = s.disk.read c

def AllocMeets (s : State) : Prop := ∃ b s', sfsAllocBlock s = .ok (b, s') ∧ Allocated s b s'

def FreeMeets (s : State) (id : Nat) : Prop := ∃ s', sfsFreeBlock s id = .ok s' ∧ Freed s id s'

variable {s s' : State} {d : Image} {b f : Nat} {map : Block}

/-! ### The flush -/

/-- The flush writes freemap block `f`. -/
def Flushed (s : State) (f : Nat) : Prop := ∃ j, 1 ≤ j ∧ (j = 1 ∨ j < nfreemapBlocks s.sb) ∧ f % 8388608 = j % 8388608

theorem read_flushFrom (map : Block) (remaining bid : Nat) (d : Image) (f : Nat) :
    ((∃ j, bid ≤ j ∧ j < bid + remaining ∧ f % 8388608 = j % 8388608) → (flushFrom map remaining bid d).read f = map) ∧
      ((∀ j, bid ≤ j → j < bid + remaining → f % 8388608 ≠ j % 8388608) →
        (flushFrom map remaining bid d).read f = d.read f) := by
  induction remaining generalizing bid d with
  | zero => exact ⟨fun ⟨j, low, high, _⟩ => by omega, fun _ => rfl⟩
  | succ remaining ih =>
    obtain ⟨later, kept⟩ := ih (bid + 1) (d.write bid map)
    rw [flushFrom]
    constructor
    · intro ⟨j, low, high, same⟩
      by_cases again : ∃ j, bid + 1 ≤ j ∧ j < bid + 1 + remaining ∧ f % 8388608 = j % 8388608
      · exact later again
      · obtain rfl : j = bid := by
          by_contra other
          exact again ⟨j, by omega, by omega, same⟩
        rw [kept fun i low high same' => again ⟨i, low, high, same'⟩, Image.read_congr _ same, Image.read_write]
    · intro apart
      rw [kept fun j low high => apart j (by omega) (by omega), Image.read_write_of_ne _ _ (apart bid (Nat.le_refl _) (by omega))]

theorem read_flush (s : State) (f : Nat) :
    (Flushed s f → (sfsFlushFreemap s).disk.read f = s.freemap) ∧
      (¬ Flushed s f → (sfsFlushFreemap s).disk.read f = s.disk.read f) := by
  obtain ⟨later, kept⟩ := read_flushFrom s.freemap (nfreemapBlocks s.sb - 2) 2 (s.disk.write 1 s.freemap) f
  rw [sfsFlushFreemap]
  constructor
  · intro ⟨j, low, high, same⟩
    by_cases again : ∃ j, 2 ≤ j ∧ j < 2 + (nfreemapBlocks s.sb - 2) ∧ f % 8388608 = j % 8388608
    · exact later again
    · obtain rfl : j = 1 := by
        by_contra other
        exact again ⟨j, by omega, by omega, same⟩
      dsimp only
      rw [kept fun i low high same' => again ⟨i, low, high, same'⟩, Image.read_congr _ same, Image.read_write]
  · intro apart
    dsimp only
    rw [kept fun j low high same => apart ⟨j, by omega, .inr (by omega), same⟩,
      Image.read_write_of_ne _ _ fun same => apart ⟨1, Nat.le_refl _, .inl rfl, same⟩]

theorem flushed_one (s : State) : Flushed s 1 := ⟨1, Nat.le_refl _, .inl rfl, rfl⟩

theorem not_flushed_of_outside (h : 1 ≤ nfreemapBlocks s.sb) (outside : OutsideFreemap s f) : ¬ Flushed s f := by
  intro ⟨j, low, high, same⟩
  exact outside j low (by omega) same

/-! ### Blocks of bits -/

/-- The bitmap is that of another image with `first` as its first block. -/
theorem bitmap_iff {before after : Image} {first : Block} {k : Nat} (some : 1 ≤ k) :
    (∀ c < k * 4096, bitAt after c = if c < 4096 then first.bit c else bitAt before c) ↔
      after.read 1 = first ∧ ∀ f, 2 ≤ f → f ≤ k → after.read f = before.read f := by
  constructor
  · intro same
    refine ⟨Bytes.ext_bit fun i => ?_, fun f low high => Bytes.ext_bit fun i => ?_⟩
    · by_cases inside : i < 4096
      · have here := same i (by omega)
        rwa [if_pos inside, bitAt, Nat.div_eq_of_lt inside, Nat.mod_eq_of_lt inside] at here
      · rw [Bytes.bit_outside _ (by omega), Bytes.bit_outside _ (by omega)]
    · by_cases inside : i < 4096
      · have here := same ((f - 1) * 4096 + i) (by omega)
        rwa [if_neg (by omega), bitAt, bitAt, show ((f - 1) * 4096 + i) / 4096 + 1 = f by omega,
          show ((f - 1) * 4096 + i) % 4096 = i by omega] at here
      · rw [Bytes.bit_outside _ (by omega), Bytes.bit_outside _ (by omega)]
  · intro ⟨head, rest⟩ c high
    by_cases inside : c < 4096
    · rw [if_pos inside, bitAt, Nat.div_eq_of_lt inside, Nat.mod_eq_of_lt inside, head]
    · rw [if_neg inside, bitAt, bitAt, rest (c / 4096 + 1) (by omega) (by omega)]

theorem bitAt_first (d : Image) {c : Nat} (h : c < 4096) : bitAt d c = (d.read 1).bit c := by
  rw [bitAt, Nat.div_eq_of_lt h, Nat.mod_eq_of_lt h]

theorem bitAt_setBit (d : Image) (hb : b < 4096) (c : Nat) :
    (bitAt d c || decide (c = b)) = if c < 4096 then ((d.read 1).setBit b).bit c else bitAt d c := by
  by_cases inside : c < 4096
  · rw [if_pos inside, bitAt_first d inside, Bytes.bit_setBit _ (by omega)]
  · rw [if_neg inside, decide_eq_false (by omega), Bool.or_false]

theorem bitAt_clearBit (d : Image) (hb : b < 4096) (c : Nat) :
    (bitAt d c && decide (c ≠ b)) = if c < 4096 then ((d.read 1).clearBit b).bit c else bitAt d c := by
  by_cases inside : c < 4096
  · rw [if_pos inside, bitAt_first d inside, Bytes.bit_clearBit _ (by omega)]
  · rw [if_neg inside, decide_eq_true (by omega), Bool.and_true]

/-! ### Allocation -/

/-- What taking `b` leaves: the flush, and zeros in the block. -/
def taken (s : State) (b : Nat) : State :=
  let s := sfsFlushFreemap { s with freemap := (s.disk.read 1).setBit b }
  { s with disk := s.disk.write b .zero }

/-- The search looks at the first freemap block only: behind a full one it runs past the array. -/
theorem sfsAllocBlock_first (some : 1 ≤ nfreemapBlocks s.sb) :
    (∃ b, sfsAllocBlock s = .ok (b, taken s b) ∧ b < 4096 ∧ (s.disk.read 1).bit b = false ∧
        ∀ c < b, (s.disk.read 1).bit c = true) ∨
      (sfsAllocBlock s = .error .undefined ∧ ∀ b < 4096, (s.disk.read 1).bit b = true) := by
  obtain ⟨blocks, count⟩ := Nat.exists_eq_succ_of_ne_zero (by omega : nfreemapBlocks s.sb ≠ 0)
  rw [sfsAllocBlock, count, allocFrom]
  dsimp only
  by_cases free : ∃ b < 4096, (s.disk.read 1).bit b = false
  · left
    obtain ⟨k, c, found, hc, hk, clear, least⟩ := @findEntry_some (s.disk.read 1) 512 0 rfl free fun b hb => by omega
    refine ⟨k * 32 + c, ?_, by omega, clear, least⟩
    rw [found, ok_bind]
    simp only [takeBlock, taken, Bytes.setBit, show (k * 32 + c) / 32 = k by omega, show (k * 32 + c) % 32 = c by omega]
  · right
    have full : ∀ b < 4096, (s.disk.read 1).bit b = true := by
      intro b hb
      by_contra clear
      exact free ⟨b, hb, Bool.not_eq_true _ ▸ clear⟩
    rw [findEntry_full rfl (by decide) full, error_bind]
    exact ⟨rfl, full⟩

theorem read_taken (s : State) (hb : b < 4096) (f : Nat) :
    (f % 8388608 = b → (taken s b).disk.read f = .zero) ∧
      (f % 8388608 ≠ b → Flushed s f → (taken s b).disk.read f = (s.disk.read 1).setBit b) ∧
      (f % 8388608 ≠ b → ¬ Flushed s f → (taken s b).disk.read f = s.disk.read f) := by
  have small : b % 8388608 = b := Nat.mod_eq_of_lt (by omega)
  obtain ⟨written, kept⟩ := read_flush { s with freemap := (s.disk.read 1).setBit b } f
  rw [taken]
  dsimp only
  refine ⟨fun same => ?_, fun other flushed => ?_, fun other apart => ?_⟩
  · rw [Image.read_congr _ (same.trans small.symm), Image.read_write]
  · rw [Image.read_write_of_ne _ _ (by omega), written flushed]
  · rw [Image.read_write_of_ne _ _ (by omega), kept apart]

/-- `b` is the least clear bit of the first freemap block. It is not the first freemap block itself, and what the flush and
the clearing of `b` write over the other freemap blocks is there already. -/
structure AllocFits (s : State) (b : Nat) : Prop where
  inside : b < 4096
  clear : (s.disk.read 1).bit b = false
  least : ∀ c < b, (s.disk.read 1).bit c = true
  notMap : b ≠ 1
  erased : ∀ f, 2 ≤ f → f ≤ nfreemapBlocks s.sb → f % 8388608 = b → s.disk.read f = .zero
  flushed : ∀ f, 2 ≤ f → f ≤ nfreemapBlocks s.sb → f % 8388608 ≠ b → Flushed s f → s.disk.read f = (s.disk.read 1).setBit b

theorem taken_allocated_iff (some : 1 ≤ nfreemapBlocks s.sb) (hb : b < 4096) (clear : (s.disk.read 1).bit b = false)
    (least : ∀ c < b, (s.disk.read 1).bit c = true) : Allocated s b (taken s b) ↔ AllocFits s b := by
  constructor
  · intro alloc
    have bits := fun c high => (alloc.bits c high).trans (bitAt_setBit s.disk hb c)
    obtain ⟨first, rest⟩ := (bitmap_iff some).mp bits
    refine ⟨hb, clear, least, ?_, fun f low high same => ?_, fun f low high other flushed => ?_⟩
    · rintro rfl
      rw [(read_taken s hb 1).1 rfl] at first
      have set := Bytes.bit_setBit_self (s.disk.read 1) (i := 1) (by decide)
      rw [← first, Bytes.bit, Bytes.word_zero, Nat.zero_testBit] at set
      cases set
    · rw [← rest f low high, (read_taken s hb f).1 same]
    · rw [← rest f low high, (read_taken s hb f).2.1 other flushed]
  · intro fits
    have one : 1 % 8388608 ≠ b := fun same => fits.notMap same.symm
    have blocks : (taken s b).disk.read 1 = (s.disk.read 1).setBit b ∧
        ∀ f, 2 ≤ f → f ≤ nfreemapBlocks s.sb → (taken s b).disk.read f = s.disk.read f := by
      refine ⟨(read_taken s hb 1).2.1 one (flushed_one s), fun f low high => ?_⟩
      obtain ⟨erased, flushed, kept⟩ := read_taken s hb f
      by_cases same : f % 8388608 = b
      · rw [erased same, fits.erased f low high same]
      · by_cases written : Flushed s f
        · rw [flushed same written, fits.flushed f low high same written]
        · exact kept same written
    refine ⟨by omega, (bitAt_first _ hb).trans clear, fun c below => ?_, fun c high => ?_, fun c outside other => ?_⟩
    · rw [bitAt_first _ (by omega), least c below]
    · rw [bitAt_setBit s.disk hb c]
      exact (bitmap_iff some).mpr blocks c high
    · exact (read_taken s hb c).2.2 other (not_flushed_of_outside some outside)

theorem allocMeets_iff (some : 1 ≤ nfreemapBlocks s.sb) : AllocMeets s ↔ ∃ b, AllocFits s b := by
  rcases sfsAllocBlock_first some with ⟨b, run, hb, clear, least⟩ | ⟨run, full⟩
  · constructor
    · intro ⟨b', s', run', alloc⟩
      obtain ⟨rfl, rfl⟩ := Prod.mk.inj (Except.ok.inj (run.symm.trans run'))
      exact ⟨b, (taken_allocated_iff some hb clear least).mp alloc⟩
    · intro ⟨b', fits⟩
      obtain rfl : b = b' := by
        rcases Nat.lt_trichotomy b b' with below | same | above
        · rw [fits.least b below] at clear
          cases clear
        · exact same
        · have set := least b' above
          rw [fits.clear] at set
          cases set
      exact ⟨b, taken s b, run, (taken_allocated_iff some hb clear least).mpr fits⟩
  · constructor
    · intro ⟨b, s', run', _⟩
      rw [run] at run'
      cases run'
    · intro ⟨b, fits⟩
      have set := full b fits.inside
      rw [fits.clear] at set
      cases set

/-! ### Freeing -/

/-- The id is in the first freemap block, and what the flush writes over the other ones is there already. -/
structure FreeFits (s : State) (id : Nat) : Prop where
  inside : id < 4096
  flushed : ∀ f, 2 ≤ f → f ≤ nfreemapBlocks s.sb → Flushed s f → s.disk.read f = (s.disk.read 1).clearBit id

theorem sfsFreeBlock_first (s : State) {id : Nat} (h : id < 4096) :
    sfsFreeBlock s id = .ok (sfsFlushFreemap { s with freemap := (s.disk.read 1).clearBit id }) := by
  rw [sfsFreeBlock]
  dsimp only
  rw [if_pos (by omega), Nat.div_eq_of_lt h]
  rfl

/-- The entry of an id behind the first freemap block is looked for past the array. -/
theorem sfsFreeBlock_behind (s : State) {id : Nat} (h : 4096 ≤ id) : sfsFreeBlock s id = .error .undefined := by
  rw [sfsFreeBlock]
  exact if_neg (by omega)

theorem freeMeets_iff (some : 1 ≤ nfreemapBlocks s.sb) (id : Nat) : FreeMeets s id ↔ FreeFits s id := by
  constructor
  · intro ⟨s', run, freed⟩
    by_cases inside : id < 4096
    · rw [sfsFreeBlock_first s inside] at run
      obtain rfl := Except.ok.inj run
      have bits := fun c high => (freed.bits c high).trans (bitAt_clearBit s.disk inside c)
      obtain ⟨-, rest⟩ := (bitmap_iff some).mp bits
      refine ⟨inside, fun f low high flushed => ?_⟩
      rw [← rest f low high]
      exact (read_flush { s with freemap := (s.disk.read 1).clearBit id } f).1 flushed
    · rw [sfsFreeBlock_behind s (by omega)] at run
      cases run
  · intro fits
    refine ⟨_, sfsFreeBlock_first s fits.inside, fun c high => ?_, fun c outside => ?_⟩
    · rw [bitAt_clearBit s.disk fits.inside c]
      refine (bitmap_iff some).mpr ⟨?_, fun f low high => ?_⟩ c high
      · exact (read_flush { s with freemap := (s.disk.read 1).clearBit id } 1).1 (flushed_one s)
      · obtain ⟨written, kept⟩ := read_flush { s with freemap := (s.disk.read 1).clearBit id } f
        by_cases flushed : Flushed s f
        · rw [written flushed]
          exact (fits.flushed f low high flushed).symm
        · exact kept flushed
    · exact (read_flush { s with freemap := (s.disk.read 1).clearBit id } c).2 (not_flushed_of_outside some outside)

/-! ### Addressing -/

/-- With any number of freemap blocks, both calls do what the bitmap says exactly when its first block decides and the flush
changes no other one. -/
theorem freemap_addressing_iff (some : 1 ≤ nfreemapBlocks s.sb) :
    (AllocMeets s ↔ ∃ b, AllocFits s b) ∧ ∀ id < nfreemapBlocks s.sb * 4096, FreeMeets s id ↔ FreeFits s id :=
  ⟨allocMeets_iff some, fun id _ => freeMeets_iff some id⟩

/-- Two freemap blocks with three blocks in use. -/
def twoMaps : State :=
  { State.initial with
    sb := Bytes.zero.setWord 2 2
    disk := Image.blank.write 1 (Bytes.zero.setWord 0 7) }

theorem twoMaps_count : nfreemapBlocks twoMaps.sb = 2 := Bytes.word_setWord_self _ (by decide) (by decide)

theorem twoMaps_bit {i : Nat} (h : i < 32) : (twoMaps.disk.read 1).bit i = (7 : Nat).testBit i := by
  have map : twoMaps.disk.read 1 = Bytes.zero.setWord 0 7 := Image.read_write _ _ _
  rw [map, Bytes.bit, Nat.div_eq_of_lt h, Nat.mod_eq_of_lt h, Bytes.word_setWord_self _ (by decide) (by decide)]

theorem twoMaps_not_flushed : ¬ Flushed twoMaps 2 := by
  intro ⟨j, low, high, same⟩
  rw [twoMaps_count] at high
  obtain rfl : j = 1 := by omega
  exact absurd same (by decide)

/-- The first freemap block has a clear bit, and the flush writes no other one. -/
theorem twoMaps_meets : AllocMeets twoMaps ∧ FreeMeets twoMaps 2 := by
  have some : 1 ≤ nfreemapBlocks twoMaps.sb := by rw [twoMaps_count]; decide
  have other : ∀ f, 2 ≤ f → f ≤ nfreemapBlocks twoMaps.sb → f = 2 := fun f low high => by
    rw [twoMaps_count] at high
    omega
  obtain ⟨alloc, free⟩ := freemap_addressing_iff some
  refine ⟨alloc.mpr ⟨3, by decide, ?_, fun c below => ?_, by decide, fun f low high same => ?_, fun f low high _ flushed => ?_⟩,
    (free 2 (by rw [twoMaps_count]; decide)).mpr ⟨by decide, fun f low high flushed => ?_⟩⟩
  · rw [twoMaps_bit (by decide)]
    rfl
  · rw [twoMaps_bit (by omega)]
    obtain rfl | rfl | rfl : c = 0 ∨ c = 1 ∨ c = 2 := by omega
    · rfl
    · rfl
    · rfl
  · obtain rfl := other f low high
    exact absurd same (by decide)
  · obtain rfl := other f low high
    exact absurd flushed twoMaps_not_flushed
  · obtain rfl := other f low high
    exact absurd flushed twoMaps_not_flushed

/-- The first block of the second freemap block cannot be freed. -/
theorem second_map_unreachable : ¬ ∀ s : State, 1 ≤ nfreemapBlocks s.sb →
    (∃ c < nfreemapBlocks s.sb * 4096, bitAt s.disk c = false) →
    AllocMeets s ∧ ∀ id < nfreemapBlocks s.sb * 4096, FreeMeets s id := by
  intro claim
  have clear : bitAt twoMaps.disk 3 = false := by
    rw [bitAt_first _ (by decide), twoMaps_bit (by decide)]
    rfl
  obtain ⟨s', run, -⟩ := (claim twoMaps (by rw [twoMaps_count]; decide) ⟨3, by rw [twoMaps_count]; decide, clear⟩).2 4096
    (by rw [twoMaps_count]; decide)
  rw [sfsFreeBlock_behind _ (Nat.le_refl _)] at run
  cases run

end StorageStack.Sfs.Pa2
