import Mathlib.Tactic.Common
import Mathlib.Data.UInt

/-!
# Fixed-size byte records

`Bytes n` is a C object of `n` bytes. The same bytes are read as characters and as little-endian
32-bit words, so a store through one view is described in both.
-/

namespace StorageStack.Lib

@[ext] structure Bytes (n : Nat) where
  byte : Fin n → UInt8

namespace Bytes

variable {n : Nat}

/-- The byte at `i`; positions outside the object read as zero. -/
def get (b : Bytes n) (i : Nat) : UInt8 := if h : i < n then b.byte ⟨i, h⟩ else 0

def word (b : Bytes n) (k : Nat) : Nat :=
  (b.get (4 * k)).toNat + 256 * (b.get (4 * k + 1)).toNat + 65536 * (b.get (4 * k + 2)).toNat +
    16777216 * (b.get (4 * k + 3)).toNat

def zero : Bytes n := ⟨fun _ => 0⟩

def setWord (b : Bytes n) (k v : Nat) : Bytes n :=
  ⟨fun i => if i.val / 4 = k then UInt8.ofNat (v / 256 ^ (i.val % 4)) else b.byte i⟩

def patch (b : Bytes n) (off : Nat) (src : List UInt8) : Bytes n :=
  ⟨fun i => if off ≤ i.val ∧ i.val < off + src.length then src.getD (i.val - off) 0 else b.byte i⟩

def toList (b : Bytes n) : List UInt8 := List.ofFn b.byte

theorem ext_get {a b : Bytes n} (h : ∀ i < n, a.get i = b.get i) : a = b := by
  ext i
  have same := h i.val i.isLt
  simpa only [get, dif_pos i.isLt] using congrArg _ same

theorem get_zero (i : Nat) : (zero : Bytes n).get i = 0 := by
  simp [get, zero]

@[simp] theorem word_zero (k : Nat) : (zero : Bytes n).word k = 0 := by
  simp [word, get_zero]

theorem word_lt (b : Bytes n) (k : Nat) : b.word k < 4294967296 := by
  have h₀ := (b.get (4 * k)).toNat_lt
  have h₁ := (b.get (4 * k + 1)).toNat_lt
  have h₂ := (b.get (4 * k + 2)).toNat_lt
  have h₃ := (b.get (4 * k + 3)).toNat_lt
  unfold word
  omega

theorem get_setWord (b : Bytes n) (k v i : Nat) :
    (b.setWord k v).get i = if i < n ∧ i / 4 = k then UInt8.ofNat (v / 256 ^ (i % 4)) else b.get i := by
  unfold get setWord
  by_cases inside : i < n
  · by_cases here : i / 4 = k
    · simp [inside, here]
    · simp [inside, here]
  · simp [inside]

theorem get_setWord_of_ne (b : Bytes n) {k v i : Nat} (h : i / 4 ≠ k) : (b.setWord k v).get i = b.get i := by
  rw [get_setWord, if_neg (fun both => h both.2)]

theorem word_setWord_self (b : Bytes n) {k v : Nat} (inside : 4 * k + 4 ≤ n) (small : v < 4294967296) :
    (b.setWord k v).word k = v := by
  unfold word
  rw [get_setWord, get_setWord, get_setWord, get_setWord, if_pos ⟨by omega, by omega⟩, if_pos ⟨by omega, by omega⟩,
    if_pos ⟨by omega, by omega⟩, if_pos ⟨by omega, by omega⟩, show 4 * k % 4 = 0 by omega,
    show (4 * k + 1) % 4 = 1 by omega, show (4 * k + 2) % 4 = 2 by omega, show (4 * k + 3) % 4 = 3 by omega]
  simp only [UInt8.toNat_ofNat', Nat.pow_zero, Nat.div_one, Nat.reducePow]
  omega

theorem word_setWord_of_ne (b : Bytes n) {k j v : Nat} (h : j ≠ k) : (b.setWord k v).word j = b.word j := by
  unfold word
  rw [get_setWord_of_ne _ (by omega), get_setWord_of_ne _ (by omega), get_setWord_of_ne _ (by omega),
    get_setWord_of_ne _ (by omega)]

theorem word_setWord (b : Bytes n) {k j v : Nat} (inside : 4 * k + 4 ≤ n) (small : v < 4294967296) :
    (b.setWord k v).word j = if j = k then v else b.word j := by
  by_cases here : j = k
  · rw [if_pos here, here, word_setWord_self b inside small]
  · rw [if_neg here, word_setWord_of_ne b here]

theorem get_patch (b : Bytes n) (off i : Nat) (src : List UInt8) :
    (b.patch off src).get i =
      if i < n ∧ off ≤ i ∧ i < off + src.length then src.getD (i - off) 0 else b.get i := by
  unfold get patch
  by_cases inside : i < n
  · by_cases here : off ≤ i ∧ i < off + src.length
    · simp only [inside, here, dif_pos, and_self, if_true]
    · simp only [inside, here, dif_pos, true_and, if_false]
  · simp [inside]

theorem get_patch_of_outside (b : Bytes n) {off i : Nat} {src : List UInt8}
    (h : i < off ∨ off + src.length ≤ i) : (b.patch off src).get i = b.get i := by
  rw [get_patch, if_neg (by omega)]

theorem word_patch_of_outside (b : Bytes n) {off k : Nat} {src : List UInt8}
    (h : 4 * k + 4 ≤ off ∨ off + src.length ≤ 4 * k) : (b.patch off src).word k = b.word k := by
  unfold word
  rw [get_patch_of_outside _ (by omega), get_patch_of_outside _ (by omega), get_patch_of_outside _ (by omega),
    get_patch_of_outside _ (by omega)]

theorem patch_comm (b : Bytes n) {off off' : Nat} {src src' : List UInt8} (apart : off + src.length ≤ off') :
    (b.patch off src).patch off' src' = (b.patch off' src').patch off src := by
  apply ext_get
  intro i hi
  rw [get_patch, get_patch, get_patch, get_patch]
  by_cases first : i < n ∧ off ≤ i ∧ i < off + src.length
  · rw [if_neg (by omega), if_pos first, if_pos first]
  · rw [if_neg first, if_neg first]

theorem word_patch_zeros (b : Bytes n) {off len k : Nat} (inside : off ≤ 4 * k ∧ 4 * k + 4 ≤ off + len) :
    (b.patch off (List.replicate len 0)).word k = 0 := by
  have zero : ∀ i, off ≤ i → i < off + len → (b.patch off (List.replicate len 0)).get i = 0 := by
    intro i low high
    rw [get_patch, List.length_replicate]
    by_cases hi : i < n
    · rw [if_pos ⟨hi, low, high⟩, List.getD_eq_getElem?_getD, List.getElem?_replicate, if_pos (by omega)]
      rfl
    · rw [if_neg (by omega), get, dif_neg hi]
  unfold word
  rw [zero _ (by omega) (by omega), zero _ (by omega) (by omega), zero _ (by omega) (by omega),
    zero _ (by omega) (by omega)]
  rfl

theorem patch_nil (b : Bytes n) (off : Nat) : b.patch off [] = b := by
  ext i
  simp only [patch, List.length_nil, Nat.add_zero]
  rw [if_neg (by omega)]

theorem length_toList (b : Bytes n) : b.toList.length = n := List.length_ofFn

theorem toList_fill (v : UInt8) : (⟨fun _ => v⟩ : Bytes n).toList = List.replicate n v := List.ofFn_const n v

theorem getElem?_toList (b : Bytes n) {i : Nat} (h : i < n) : b.toList[i]? = some (b.get i) := by
  simp [toList, get, h]

theorem toList_drop_congr {a b : Bytes n} {off : Nat} (same : ∀ i, off ≤ i → i < n → a.get i = b.get i) :
    a.toList.drop off = b.toList.drop off := by
  apply List.ext_getElem?
  intro i
  rw [List.getElem?_drop, List.getElem?_drop]
  by_cases inside : off + i < n
  · rw [getElem?_toList _ inside, getElem?_toList _ inside, same _ (by omega) inside]
  · rw [List.getElem?_eq_none (by rw [length_toList]; omega), List.getElem?_eq_none (by rw [length_toList]; omega)]

theorem toList_drop_patch (b : Bytes n) {off : Nat} {src : List UInt8} (fits : off + src.length ≤ n) :
    (b.patch off src).toList.drop off = src ++ b.toList.drop (off + src.length) := by
  apply List.ext_getElem?
  intro i
  rw [List.getElem?_drop]
  by_cases inside : off + i < n
  · rw [getElem?_toList _ inside, get_patch]
    by_cases front : i < src.length
    · rw [if_pos (by omega), List.getElem?_append_left front, Nat.add_sub_cancel_left, List.getD_eq_getElem?_getD,
        List.getElem?_eq_getElem front, Option.getD_some]
    · rw [if_neg (by omega), List.getElem?_append_right (by omega), List.getElem?_drop,
        show off + src.length + (i - src.length) = off + i by omega, getElem?_toList _ inside]
  · rw [List.getElem?_eq_none (by rw [length_toList]; omega), List.getElem?_eq_none (by
      rw [List.length_append, List.length_drop, length_toList]; omega)]

theorem patch_toList (a b : Bytes n) : a.patch 0 b.toList = b := by
  apply ext_get
  intro i hi
  rw [get_patch, length_toList, if_pos ⟨hi, Nat.zero_le _, by omega⟩, Nat.sub_zero, List.getD_eq_getElem?_getD,
    getElem?_toList b hi,
    Option.getD_some]

theorem toList_patch (a : Bytes n) {src : List UInt8} (whole : src.length = n) : (a.patch 0 src).toList = src := by
  have drop := @toList_drop_patch _ a 0 src (by omega)
  rwa [List.drop_zero, Nat.zero_add, List.drop_of_length_le (by rw [length_toList]; omega), List.append_nil] at drop

theorem setWord_word (b : Bytes n) (k : Nat) : b.setWord k (b.word k) = b := by
  apply ext_get
  intro i hi
  rw [get_setWord]
  split
  · rename_i here
    have h₀ := (b.get (4 * k)).toNat_lt
    have h₁ := (b.get (4 * k + 1)).toNat_lt
    have h₂ := (b.get (4 * k + 2)).toNat_lt
    have h₃ := (b.get (4 * k + 3)).toNat_lt
    have cases : i = 4 * k ∨ i = 4 * k + 1 ∨ i = 4 * k + 2 ∨ i = 4 * k + 3 := by omega
    apply UInt8.toNat.inj
    unfold word
    rcases cases with rfl | rfl | rfl | rfl
    · simp only [UInt8.toNat_ofNat', show 4 * k % 4 = 0 by omega, Nat.pow_zero, Nat.div_one, Nat.reducePow]; omega
    · simp only [UInt8.toNat_ofNat', show (4 * k + 1) % 4 = 1 by omega, Nat.pow_one, Nat.reducePow]; omega
    · simp only [UInt8.toNat_ofNat', show (4 * k + 2) % 4 = 2 by omega, Nat.reducePow]; omega
    · simp only [UInt8.toNat_ofNat', show (4 * k + 3) % 4 = 3 by omega, Nat.reducePow]; omega
  · rfl

theorem get_eq_zero_of_word_lt (b : Bytes n) {k : Nat} (small : b.word k < 16777216) : b.get (4 * k + 3) = 0 := by
  apply UInt8.toNat.inj
  unfold word at small
  show _ = 0
  omega

end Bytes

end StorageStack.Lib
