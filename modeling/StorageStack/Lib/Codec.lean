import Mathlib.Data.List.FinRange
import Mathlib.Logic.Equiv.Defs
import StorageStack.Lib.Buffer
import StorageStack.Lib.Bytes
import StorageStack.Lib.Machine

/-!
# Values as bytes

A codec says how the values of a type lie in memory: the valid ones and the byte strings of one length stand for
each other. Codecs of the parts give the codec of a record or an array.
-/

namespace StorageStack.Lib

structure Codec (α : Type) where
  size : Nat
  Valid : α → Prop
  encode : α → List UInt8
  decode : List UInt8 → α
  length_encode : ∀ a, (encode a).length = size
  decode_encode : ∀ a, Valid a → decode (encode a) = a
  encode_decode : ∀ bytes, bytes.length = size → encode (decode bytes) = bytes
  valid_decode : ∀ bytes, bytes.length = size → Valid (decode bytes)

/-! ### Bytes and integers -/

namespace Bytes

variable {n : Nat}

def ofList (bytes : List UInt8) : Bytes n := ⟨fun i => bytes.getD i.val 0⟩

theorem get_ofList (bytes : List UInt8) {i : Nat} (inside : i < n) : (ofList bytes : Bytes n).get i = bytes.getD i 0 :=
  dif_pos inside

theorem ofList_toList (b : Bytes n) : ofList b.toList = b := by
  apply ext_get
  intro i inside
  rw [get_ofList, List.getD_eq_getElem?_getD, getElem?_toList b inside, Option.getD_some]
  exact inside

theorem toList_ofList {bytes : List UInt8} (whole : bytes.length = n) : (ofList bytes : Bytes n).toList = bytes := by
  apply List.ext_getElem?
  intro i
  by_cases inside : i < n
  · rw [getElem?_toList _ inside, get_ofList bytes inside, List.getD_eq_getElem?_getD, List.getElem?_eq_getElem (by omega),
      Option.getD_some]
  · rw [List.getElem?_eq_none (by rw [length_toList]; omega), List.getElem?_eq_none (by omega)]

/-- A word fills four bytes. -/
theorem setWord_zero (b : Bytes 4) : (zero : Bytes 4).setWord 0 (b.word 0) = b := by
  conv_rhs => rw [← setWord_word b 0]
  apply ext_get
  intro i inside
  rw [get_setWord, get_setWord, if_pos ⟨inside, by omega⟩, if_pos ⟨inside, by omega⟩]

end Bytes

theorem toU32_toInt32 {w : Nat} (small : w < 4294967296) : toU32 (toInt32 w) = w := by
  unfold toU32 toInt32
  omega

theorem toInt32_toU32 {i : Int} (low : -2147483648 ≤ i) (high : i < 2147483648) : toInt32 (toU32 i) = i := by
  unfold toU32 toInt32
  omega

theorem toU32_lt (i : Int) : toU32 i < 4294967296 := by
  unfold toU32
  omega

namespace Codec

/-- An array of characters. -/
def chars (n : Nat) : Codec (Bytes n) where
  size := n
  Valid _ := True
  encode := Bytes.toList
  decode := Bytes.ofList
  length_encode := Bytes.length_toList
  decode_encode b _ := Bytes.ofList_toList b
  encode_decode _ := Bytes.toList_ofList
  valid_decode _ _ := trivial

/-- The values of type `int`. -/
def IsInt32 (i : Int) : Prop := -2147483648 ≤ i ∧ i < 2147483648

theorem isInt32_toInt32 (x : Int) : IsInt32 (toInt32 x) := by
  unfold IsInt32 toInt32
  omega

def int32 : Codec Int where
  size := 4
  Valid := IsInt32
  encode i := ((Bytes.zero : Bytes 4).setWord 0 (toU32 i)).toList
  decode bytes := toInt32 ((Bytes.ofList bytes : Bytes 4).word 0)
  length_encode i := Bytes.length_toList _
  decode_encode i valid := by
    rw [Bytes.ofList_toList, Bytes.word_setWord_self _ (by decide) (toU32_lt i), toInt32_toU32 valid.1 valid.2]
  encode_decode bytes whole := by
    rw [toU32_toInt32 (Bytes.word_lt _ 0), Bytes.setWord_zero, Bytes.toList_ofList whole]
  valid_decode bytes _ := isInt32_toInt32 _

/-! ### Records and arrays -/

variable {α β : Type}

def pair (c : Codec α) (d : Codec β) : Codec (α × β) where
  size := c.size + d.size
  Valid p := c.Valid p.1 ∧ d.Valid p.2
  encode p := c.encode p.1 ++ d.encode p.2
  decode bytes := (c.decode (bytes.take c.size), d.decode (bytes.drop c.size))
  length_encode p := by rw [List.length_append, c.length_encode, d.length_encode]
  decode_encode p valid := by
    rw [List.take_left' (c.length_encode _), List.drop_left' (c.length_encode _), c.decode_encode _ valid.1,
      d.decode_encode _ valid.2]
  encode_decode bytes whole := by
    rw [c.encode_decode _ (by rw [List.length_take]; omega), d.encode_decode _ (by rw [List.length_drop]; omega),
      List.take_append_drop]
  valid_decode bytes whole :=
    ⟨c.valid_decode _ (by rw [List.length_take]; omega), d.valid_decode _ (by rw [List.length_drop]; omega)⟩

/-- The same bytes, as another type. -/
def map (c : Codec α) (e : α ≃ β) : Codec β where
  size := c.size
  Valid b := c.Valid (e.symm b)
  encode b := c.encode (e.symm b)
  decode bytes := e (c.decode bytes)
  length_encode b := c.length_encode _
  decode_encode b valid := by rw [c.decode_encode _ valid, e.apply_symm_apply]
  encode_decode bytes whole := by rw [e.symm_apply_apply, c.encode_decode bytes whole]
  valid_decode bytes whole := by
    rw [e.symm_apply_apply]
    exact c.valid_decode bytes whole

theorem flatMap_finRange {n : Nat} (f : Fin n → List α) :
    (List.finRange n).flatMap f = (List.range n).flatMap fun k => if h : k < n then f ⟨k, h⟩ else [] := by
  rw [← List.map_coe_finRange_eq_range, List.flatMap_map]
  refine List.flatMap_congr fun i _ => ?_
  rw [dif_pos i.isLt]

/-- Each part is found again at its place. -/
theorem piece_flatMap_range {f : Nat → List α} {c n j : Nat} (size : ∀ k < n, (f k).length = c) (inside : j < n) :
    piece ((List.range n).flatMap f) c j = f j := by
  have total := length_flatMap_range size
  have parts : ∀ k < n, (piece ((List.range n).flatMap f) c k).length = c := by
    intro k h
    apply length_piece
    rw [total]
    exact Nat.mul_le_mul_left c h
  have whole : (List.range n).flatMap (piece ((List.range n).flatMap f) c) = (List.range n).flatMap f := by
    rw [flatMap_piece, List.take_of_length_le (by omega)]
  exact flatMap_range_inj parts size whole j inside

def array (n : Nat) (c : Codec α) : Codec (Fin n → α) where
  size := c.size * n
  Valid f := ∀ i, c.Valid (f i)
  encode f := (List.finRange n).flatMap fun i => c.encode (f i)
  decode bytes i := c.decode (piece bytes c.size i.val)
  length_encode f := by
    rw [flatMap_finRange]
    refine length_flatMap_range fun k inside => ?_
    rw [dif_pos inside, c.length_encode]
  decode_encode f valid := by
    funext i
    rw [flatMap_finRange, piece_flatMap_range _ i.isLt, dif_pos i.isLt, c.decode_encode _ (valid i)]
    intro k inside
    rw [dif_pos inside, c.length_encode]
  encode_decode bytes whole := by
    have parts : ∀ k ∈ List.range n,
        (if h : k < n then c.encode (c.decode (piece bytes c.size k)) else []) = piece bytes c.size k := by
      intro k member
      have inside := List.mem_range.mp member
      have fits : c.size * (k + 1) ≤ bytes.length := whole ▸ Nat.mul_le_mul_left c.size inside
      rw [dif_pos inside, c.encode_decode _ (length_piece fits)]
    rw [flatMap_finRange, List.flatMap_congr parts, flatMap_piece, List.take_of_length_le (by omega)]
  valid_decode bytes whole i := by
    have fits : c.size * (i.val + 1) ≤ bytes.length := whole ▸ Nat.mul_le_mul_left c.size i.isLt
    exact c.valid_decode _ (length_piece fits)

end Codec

end StorageStack.Lib
