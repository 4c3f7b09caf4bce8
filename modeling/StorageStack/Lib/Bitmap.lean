import StorageStack.Lib.Bytes
import Mathlib.Data.Nat.Bitwise
import Mathlib.Data.Finset.Card

/-!
# Bitmaps

The bits of a byte record, counted through its 32-bit words: bit `i` is bit `i % 32` of word `i / 32`.
-/

namespace StorageStack.Lib.Bytes

variable {n : Nat}

def bit (b : Bytes n) (i : Nat) : Bool := (b.word (i / 32)).testBit (i % 32)

theorem bit_outside (b : Bytes n) {i : Nat} (outside : n ≤ 4 * (i / 32)) : b.bit i = false := by
  have zero : ∀ k, n ≤ k → b.get k = 0 := fun k past => dif_neg (Nat.not_lt.mpr past)
  rw [bit, word, zero _ outside, zero _ (by omega), zero _ (by omega), zero _ (by omega)]
  exact Nat.zero_testBit _

def setBit (b : Bytes n) (i : Nat) : Bytes n := b.setWord (i / 32) (b.word (i / 32) ||| 1 <<< (i % 32))

def clearBit (b : Bytes n) (i : Nat) : Bytes n :=
  b.setWord (i / 32) (b.word (i / 32) &&& (0xffffffff ^^^ 1 <<< (i % 32)))

theorem shift_lt (i : Nat) : 1 <<< (i % 32) < 2 ^ 32 := by
  rw [Nat.one_shiftLeft]
  exact Nat.pow_lt_pow_right (by decide) (Nat.mod_lt _ (by decide))

theorem testBit_one_shiftLeft (k j : Nat) : (1 <<< k).testBit j = decide (k = j) := by
  rw [Nat.one_shiftLeft, Nat.testBit_two_pow]

theorem testBit_full {j : Nat} (h : j < 32) : (0xffffffff : Nat).testBit j = true := by
  rw [show (0xffffffff : Nat) = 2 ^ 32 - 1 from rfl, Nat.testBit_two_pow_sub_one, decide_eq_true h]

theorem bit_setBit (b : Bytes n) {i : Nat} (inside : 4 * (i / 32) + 4 ≤ n) (j : Nat) :
    (b.setBit i).bit j = (b.bit j || decide (j = i)) := by
  have small : b.word (i / 32) ||| 1 <<< (i % 32) < 4294967296 := Nat.or_lt_two_pow (b.word_lt _) (shift_lt i)
  rw [bit, setBit, word_setWord b inside small]
  by_cases here : j / 32 = i / 32
  · rw [if_pos here, Nat.testBit_or, testBit_one_shiftLeft, bit, here]
    congr 1
    exact decide_eq_decide.mpr (by omega)
  · rw [if_neg here, decide_eq_false (by intro same; exact here (by rw [same])), Bool.or_false]
    rfl

theorem bit_clearBit (b : Bytes n) {i : Nat} (inside : 4 * (i / 32) + 4 ≤ n) (j : Nat) :
    (b.clearBit i).bit j = (b.bit j && decide (j ≠ i)) := by
  have small : b.word (i / 32) &&& (0xffffffff ^^^ 1 <<< (i % 32)) < 4294967296 :=
    lt_of_le_of_lt Nat.and_le_left (b.word_lt _)
  rw [bit, clearBit, word_setWord b inside small]
  by_cases here : j / 32 = i / 32
  · rw [if_pos here, Nat.testBit_and, Nat.testBit_xor, testBit_full (Nat.mod_lt _ (by decide)),
      testBit_one_shiftLeft, bit, here]
    congr 1
    by_cases same : j = i
    · simp [same]
    · have other : ¬ i % 32 = j % 32 := by omega
      simp [same, other]
  · rw [if_neg here, decide_eq_true (by intro same; exact here (by rw [same])), Bool.and_true]
    rfl

theorem bit_setBit_self (b : Bytes n) {i : Nat} (inside : 4 * (i / 32) + 4 ≤ n) : (b.setBit i).bit i = true := by
  simp [bit_setBit b inside]

theorem bit_setBit_of_bit (b : Bytes n) {i j : Nat} (inside : 4 * (i / 32) + 4 ≤ n) (h : b.bit j = true) :
    (b.setBit i).bit j = true := by
  simp [bit_setBit b inside, h]

theorem word_eq_full_iff (b : Bytes n) (k : Nat) :
    b.word k = 0xffffffff ↔ ∀ c < 32, b.bit (32 * k + c) = true := by
  have index : ∀ c < 32, b.bit (32 * k + c) = (b.word k).testBit c := fun c hc => by
    rw [bit, show (32 * k + c) / 32 = k by omega, show (32 * k + c) % 32 = c by omega]
  constructor
  · intro full c hc
    rw [index c hc, full, testBit_full hc]
  · intro set
    apply Nat.eq_of_testBit_eq
    intro c
    by_cases hc : c < 32
    · rw [← index c hc, set c hc, testBit_full hc]
    · have high : 2 ^ 32 ≤ 2 ^ c := Nat.pow_le_pow_right (by decide) (by omega)
      rw [Nat.testBit_lt_two_pow (lt_of_lt_of_le (b.word_lt k) high),
        Nat.testBit_lt_two_pow (lt_of_lt_of_le (by decide) high)]

theorem get_eq_of_word_eq {a b : Bytes n} {k : Nat} (same : a.word k = b.word k) {j : Nat} (h : j < 4) :
    a.get (4 * k + j) = b.get (4 * k + j) := by
  have bound := fun (c : Bytes n) i => (c.get i).toNat_lt
  have := bound a (4 * k); have := bound a (4 * k + 1); have := bound a (4 * k + 2); have := bound a (4 * k + 3)
  have := bound b (4 * k); have := bound b (4 * k + 1); have := bound b (4 * k + 2); have := bound b (4 * k + 3)
  unfold word at same
  apply UInt8.toNat.inj
  obtain rfl | rfl | rfl | rfl : j = 0 ∨ j = 1 ∨ j = 2 ∨ j = 3 := by omega
  · simp only [Nat.add_zero]
    omega
  all_goals omega

theorem ext_bit {a b : Bytes n} (same : ∀ i, a.bit i = b.bit i) : a = b := by
  apply ext_get
  intro i hi
  have words : a.word (i / 4) = b.word (i / 4) := by
    apply Nat.eq_of_testBit_eq
    intro c
    by_cases hc : c < 32
    · have bits := same (32 * (i / 4) + c)
      rwa [bit, bit, show (32 * (i / 4) + c) / 32 = i / 4 by omega, show (32 * (i / 4) + c) % 32 = c by omega] at bits
    · have high : 2 ^ 32 ≤ 2 ^ c := Nat.pow_le_pow_right (by decide) (by omega)
      rw [Nat.testBit_lt_two_pow (lt_of_lt_of_le (a.word_lt _) high),
        Nat.testBit_lt_two_pow (lt_of_lt_of_le (b.word_lt _) high)]
  have byte := get_eq_of_word_eq words (Nat.mod_lt i (by decide : 4 > 0))
  rwa [Nat.div_add_mod] at byte

/-! ### Counting clear bits -/

def clearCount (b : Bytes n) : Nat := ((Finset.range (8 * n)).filter (fun i => b.bit i = false)).card

theorem exists_clear {b : Bytes n} (h : 0 < b.clearCount) : ∃ i < 8 * n, b.bit i = false := by
  obtain ⟨i, hi⟩ := Finset.card_pos.mp h
  obtain ⟨range, clear⟩ := Finset.mem_filter.mp hi
  exact ⟨i, Finset.mem_range.mp range, clear⟩

theorem clearCount_pos {b : Bytes n} {i : Nat} (inside : i < 8 * n) (clear : b.bit i = false) : 0 < b.clearCount :=
  Finset.card_pos.mpr ⟨i, Finset.mem_filter.mpr ⟨Finset.mem_range.mpr inside, clear⟩⟩

theorem clearCount_setBit {b : Bytes n} {i : Nat} (inside : 4 * (i / 32) + 4 ≤ n) (clear : b.bit i = false) :
    (b.setBit i).clearCount + 1 = b.clearCount := by
  have member : i ∈ (Finset.range (8 * n)).filter (fun i => b.bit i = false) :=
    Finset.mem_filter.mpr ⟨Finset.mem_range.mpr (by omega), clear⟩
  have rest : (Finset.range (8 * n)).filter (fun j => (b.setBit i).bit j = false) =
      ((Finset.range (8 * n)).filter (fun j => b.bit j = false)).erase i := by
    ext j
    simp only [Finset.mem_filter, Finset.mem_erase, bit_setBit b inside, Bool.or_eq_false_iff,
      decide_eq_false_iff_not]
    tauto
  rw [clearCount, rest, clearCount]
  exact Finset.card_erase_add_one member

/-- A record in which only the bits of `used` are set has all others clear. -/
theorem le_clearCount_of_bits {b : Bytes n} {used : List Nat} (only : ∀ i < 8 * n, b.bit i = true → i ∈ used) :
    8 * n ≤ b.clearCount + used.length := by
  have all : Finset.range (8 * n) ⊆ (Finset.range (8 * n)).filter (fun i => b.bit i = false) ∪ used.toFinset := by
    intro i hi
    rw [Finset.mem_union, Finset.mem_filter, List.mem_toFinset]
    by_cases clear : b.bit i = false
    · exact .inl ⟨hi, clear⟩
    · exact .inr (only i (Finset.mem_range.mp hi) (Bool.not_eq_false _ ▸ clear))
  have size := (Finset.card_le_card all).trans (Finset.card_union_le _ _)
  have few := List.toFinset_card_le used
  rw [Finset.card_range] at size
  unfold clearCount
  omega

/-- A record in which exactly the bits of `used` are set. -/
theorem clearCount_add_length {b : Bytes n} {used : List Nat} (nodup : used.Nodup)
    (exact : ∀ i < 8 * n, b.bit i = true ↔ i ∈ used) (inside : ∀ i ∈ used, i < 8 * n) : b.clearCount + used.length = 8 * n := by
  have clear : (Finset.range (8 * n)).filter (fun i => b.bit i = false) = Finset.range (8 * n) \ used.toFinset := by
    ext i
    rw [Finset.mem_filter, Finset.mem_sdiff, List.mem_toFinset]
    constructor
    · intro ⟨range, clear⟩
      refine ⟨range, fun member => ?_⟩
      rw [(exact i (Finset.mem_range.mp range)).mpr member] at clear
      cases clear
    · intro ⟨range, absent⟩
      refine ⟨range, Bool.eq_false_iff.mpr fun set => ?_⟩
      exact absent ((exact i (Finset.mem_range.mp range)).mp set)
  have subset : used.toFinset ⊆ Finset.range (8 * n) := by
    intro i member
    exact Finset.mem_range.mpr (inside i (List.mem_toFinset.mp member))
  have size := Finset.card_sdiff_add_card_eq_card subset
  rwa [List.toFinset_card_of_nodup nodup, Finset.card_range, ← clear] at size

theorem clearCount_pos_of_bits {b : Bytes n} {used : List Nat} (only : ∀ i < 8 * n, b.bit i = true → i ∈ used)
    (room : used.length < 8 * n) : 0 < b.clearCount := by
  have := le_clearCount_of_bits only
  omega

theorem le_clearCount_of_words {b : Bytes n} (empty : ∀ k, 4 * k < n → k ≠ 0 → b.word k = 0) : 8 * n ≤ b.clearCount + 32 := by
  refine (@le_clearCount_of_bits _ b (List.range 32) ?_).trans (by rw [List.length_range])
  intro i inside set
  by_contra high
  rw [List.mem_range] at high
  rw [bit, empty _ (by omega) (by omega), Nat.zero_testBit] at set
  cases set

end StorageStack.Lib.Bytes
