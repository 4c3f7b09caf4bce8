import StorageStack.Lib.Bitmap
import StorageStack.Sfs.Model

/-!
# The freemap

With one freemap block, allocation returns the least block whose bit is clear, sets the bit in memory
and on the disk and clears the block; freeing a block clears its bit. Nothing else moves.
-/

namespace StorageStack.Sfs
open Lib

def State.take (s : State) (b : Nat) : State :=
  let freemap := (s.disk.read 1).setBit b
  { s with freemap, disk := (s.disk.write 1 freemap).write b .zero }

def State.release (s : State) (b : Nat) : State :=
  let freemap := (s.disk.read 1).clearBit b
  { s with freemap, disk := s.disk.write 1 freemap }

@[simp] theorem take_sb (s : State) (b : Nat) : (s.take b).sb = s.sb := rfl
@[simp] theorem take_fdtable (s : State) (b : Nat) : (s.take b).fdtable = s.fdtable := rfl
@[simp] theorem release_sb (s : State) (b : Nat) : (s.release b).sb = s.sb := rfl
@[simp] theorem release_fdtable (s : State) (b : Nat) : (s.release b).fdtable = s.fdtable := rfl

theorem mask_eq_iff (bitmap count : Nat) : bitmap &&& 1 <<< count = 1 <<< count ↔ bitmap.testBit count = true := by
  rw [Nat.one_shiftLeft, Nat.and_two_pow]
  cases bitmap.testBit count with
  | true => simp
  | false => simpa using (Nat.two_pow_pos count).ne

/-- The bit loop returns the first clear bit of an entry that is not full. -/
theorem findBit_some {bitmap remaining count : Nat} (open_ : ∃ c, count ≤ c ∧ c < count + remaining ∧ bitmap.testBit c = false) :
    ∃ c, findBit bitmap remaining count = some c ∧ count ≤ c ∧ c < count + remaining ∧ bitmap.testBit c = false ∧
      ∀ j, count ≤ j → j < c → bitmap.testBit j = true := by
  induction remaining generalizing count with
  | zero =>
    obtain ⟨c, low, high, _⟩ := open_
    omega
  | succ remaining ih =>
    rw [findBit]
    by_cases set : bitmap.testBit count = true
    · obtain ⟨c, low, high, clear⟩ := open_
      have later : count ≠ c := by
        rintro rfl
        simp [set] at clear
      obtain ⟨c, found, low, high, clear, before⟩ := @ih (count + 1) ⟨c, by omega, by omega, clear⟩
      refine ⟨c, by rw [if_pos ((mask_eq_iff _ _).mpr set), found], by omega, by omega, clear, fun j hj hc => ?_⟩
      by_cases first : j = count
      · rw [first, set]
      · exact before j (by omega) hc
    · refine ⟨count, if_neg (fun h => set ((mask_eq_iff _ _).mp h)), Nat.le_refl _, by omega,
        Bool.not_eq_true _ ▸ set, fun j hj hc => by omega⟩

theorem xor_full_ne_zero_iff (x : Nat) : x ^^^ 0xffffffff ≠ 0 ↔ x ≠ 0xffffffff := by
  rw [Ne, Nat.xor_eq_zero_iff]

theorem findEntry_some {freemap : Block} {remaining fmByte : Nat} (bound : remaining + fmByte = 512)
    (clear : ∃ b < 4096, freemap.bit b = false) (before : ∀ b < 32 * fmByte, freemap.bit b = true) :
    ∃ k c, findEntry freemap remaining fmByte = .ok (some (k, c)) ∧ c < 32 ∧ k < 128 ∧
      freemap.bit (k * 32 + c) = false ∧ ∀ b < k * 32 + c, freemap.bit b = true := by
  have here : fmByte < 128 := by
    obtain ⟨b, hb, isClear⟩ := clear
    by_contra h
    have := before b (by omega)
    simp [this] at isClear
  induction remaining generalizing fmByte with
  | zero => omega
  | succ remaining ih =>
    rw [findEntry, if_pos here]
    dsimp only
    by_cases full : freemap.word fmByte = 0xffffffff
    · rw [if_neg (fun h => (xor_full_ne_zero_iff _).mp h full)]
      have filled : ∀ b < 32 * (fmByte + 1), freemap.bit b = true := by
        intro b hb
        by_cases earlier : b < 32 * fmByte
        · exact before b earlier
        · have set := (freemap.word_eq_full_iff fmByte).mp full (b - 32 * fmByte) (by omega)
          rwa [show 32 * fmByte + (b - 32 * fmByte) = b by omega] at set
      have next : fmByte + 1 < 128 := by
        obtain ⟨b, hb, isClear⟩ := clear
        by_contra h
        have := filled b (by omega)
        simp [this] at isClear
      exact ih (by omega) filled next
    · rw [if_pos ((xor_full_ne_zero_iff _).mpr full)]
      have index : ∀ c < 32, freemap.bit (fmByte * 32 + c) = (freemap.word fmByte).testBit c := fun c hc => by
        rw [Bytes.bit, show (fmByte * 32 + c) / 32 = fmByte by omega, show (fmByte * 32 + c) % 32 = c by omega]
      have some : ∃ c, 0 ≤ c ∧ c < 0 + 32 ∧ (freemap.word fmByte).testBit c = false := by
        by_contra none
        apply full
        rw [Bytes.word_eq_full_iff]
        intro c hc
        rw [Nat.mul_comm, index c hc]
        by_contra h
        exact none ⟨c, Nat.zero_le _, by omega, Bool.not_eq_true _ ▸ h⟩
      obtain ⟨c, found, _, high, isClear, earlier⟩ := findBit_some some
      refine ⟨fmByte, c, by rw [found], by omega, here, by rw [index c (by omega), isClear], fun b hb => ?_⟩
      by_cases word : b < 32 * fmByte
      · exact before b word
      · have := earlier (b - 32 * fmByte) (Nat.zero_le _) (by omega)
        rwa [← index _ (by omega), show fmByte * 32 + (b - 32 * fmByte) = b by omega] at this

theorem sfsAllocBlock_ok {s : State} (loaded : nfreemapBlocks s.sb ≠ 0) (free : 0 < (s.disk.read 1).clearCount) :
    ∃ b, sfsAllocBlock s = .ok (b, s.take b) ∧ b < 4096 ∧ (s.disk.read 1).bit b = false ∧
      ∀ c < b, (s.disk.read 1).bit c = true := by
  obtain ⟨k, c, found, hc, hk, clear, least⟩ := @findEntry_some (s.disk.read 1) 512 0 rfl
    (Bytes.exists_clear free) (fun b hb => by omega)
  obtain ⟨blocks, count⟩ := Nat.exists_eq_succ_of_ne_zero loaded
  refine ⟨k * 32 + c, ?_, by omega, clear, least⟩
  rw [sfsAllocBlock, count, allocFrom]
  dsimp only
  rw [found, ok_bind]
  simp only [takeBlock, sfsFlushFreemap, State.take, Bytes.setBit, show (k * 32 + c) / 32 = k by omega,
    show (k * 32 + c) % 32 = c by omega]

theorem findEntry_full {freemap : Block} {remaining fmByte : Nat} (bound : remaining + fmByte = 512) (low : fmByte ≤ 128)
    (full : ∀ b < 4096, freemap.bit b = true) : findEntry freemap remaining fmByte = .error .undefined := by
  induction remaining generalizing fmByte with
  | zero => omega
  | succ remaining ih =>
    rw [findEntry]
    by_cases here : fmByte < 128
    · have word : freemap.word fmByte = 0xffffffff :=
        (freemap.word_eq_full_iff fmByte).mpr fun c hc => full _ (by omega)
      rw [if_pos here]
      dsimp only
      rw [if_neg fun other => (xor_full_ne_zero_iff _).mp other word]
      exact ih (by omega) (by omega)
    · rw [if_neg here]

theorem sfsAllocBlock_full {s : State} (loaded : nfreemapBlocks s.sb ≠ 0) (full : (s.disk.read 1).clearCount = 0) :
    sfsAllocBlock s = .error .undefined := by
  obtain ⟨blocks, count⟩ := Nat.exists_eq_succ_of_ne_zero loaded
  have set : ∀ b < 4096, (s.disk.read 1).bit b = true := by
    intro b hb
    by_contra clear
    have some := Bytes.clearCount_pos (by omega) (Bool.not_eq_true _ ▸ clear)
    omega
  rw [sfsAllocBlock, count, allocFrom]
  dsimp only
  rw [findEntry_full rfl (by decide) set, error_bind]

theorem sfsAllocBlock_inv {s s' : State} {b : Nat} (loaded : nfreemapBlocks s.sb ≠ 0) (run : sfsAllocBlock s = .ok (b, s')) :
    s' = s.take b ∧ b < 4096 ∧ (s.disk.read 1).bit b = false ∧ (∀ c < b, (s.disk.read 1).bit c = true) ∧
      0 < (s.disk.read 1).clearCount := by
  by_cases free : 0 < (s.disk.read 1).clearCount
  · obtain ⟨b', run', hb, clear, least⟩ := sfsAllocBlock_ok loaded free
    obtain ⟨rfl, rfl⟩ := Prod.mk.inj (Except.ok.inj (run.symm.trans run'))
    exact ⟨rfl, hb, clear, least, free⟩
  · rw [sfsAllocBlock_full loaded (by omega)] at run
    cases run

theorem sfsFreeBlock_ok (s : State) {b : Nat} (h : b < 4096) : sfsFreeBlock s b = .ok (s.release b) := by
  rw [sfsFreeBlock]
  dsimp only
  rw [if_pos (by omega), show b / 4096 + 1 = 1 by omega]
  rfl

/-! ### Reading around allocation -/

theorem read_take_self (s : State) (b : Nat) : (s.take b).disk.read b = .zero := Image.read_write _ _ _

theorem read_take_map {s : State} {b : Nat} (h : b < 4096) (other : b ≠ 1) :
    (s.take b).disk.read 1 = (s.disk.read 1).setBit b := by
  rw [State.take, Image.read_write_of_ne _ _ (by omega), Image.read_write]

theorem read_take_of_ne {s : State} {b c : Nat} (h : b < 4096) (hc : c < 4096) (map : c ≠ 1) (other : c ≠ b) :
    (s.take b).disk.read c = s.disk.read c := by
  rw [State.take, Image.read_write_of_ne _ _ (by omega), Image.read_write_of_ne _ _ (by omega)]

theorem take_freemap {s : State} {b : Nat} (h : b < 4096) (other : b ≠ 1) :
    (s.take b).freemap = (s.take b).disk.read 1 := (read_take_map h other).symm

theorem read_release_map (s : State) (b : Nat) : (s.release b).disk.read 1 = (s.disk.read 1).clearBit b :=
  Image.read_write _ _ _

theorem read_release_of_ne {s : State} {b c : Nat} (hc : c < 4096) (map : c ≠ 1) :
    (s.release b).disk.read c = s.disk.read c := Image.read_write_of_ne _ _ (by omega)

end StorageStack.Sfs
