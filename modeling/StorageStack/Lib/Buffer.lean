import StorageStack.Lib.Outcome
import Mathlib.Data.List.Basic

/-!
# Byte buffers

A buffer is a list of elements with a fixed length. `slice` and `blit` are the two halves of
`memcpy`: each refuses to leave its buffer. `overlay` is the result of a copy that stays inside,
described element by element through `getElem?`.
-/

namespace StorageStack.Lib

variable {α : Type}

/-- `buf` with the elements from `off` on replaced by `src`. -/
def overlay (buf : List α) (off : Nat) (src : List α) : List α :=
  buf.take off ++ src ++ buf.drop (off + src.length)

def slice (buf : List α) (off len : Nat) : Outcome (List α) :=
  if off + len ≤ buf.length then .ok ((buf.drop off).take len) else .error .undefined

def blit (buf : List α) (off : Nat) (src : List α) : Outcome (List α) :=
  if off + src.length ≤ buf.length then .ok (overlay buf off src) else .error .undefined

/-- `memcpy(dst + off, src + from, len)`. -/
def memcpy (dst : List α) (off : Nat) (src : List α) (start len : Nat) : Outcome (List α) := do
  blit dst off (← slice src start len)

theorem length_overlay {buf src : List α} {off : Nat} (h : off + src.length ≤ buf.length) :
    (overlay buf off src).length = buf.length := by
  simp [overlay]; omega

/-- The copy may run past the end, which moves then. -/
theorem getElem?_overlay_of_le {buf src : List α} {off : Nat} (h : off ≤ buf.length) (i : Nat) :
    (overlay buf off src)[i]? =
      if off ≤ i ∧ i < off + src.length then src[i - off]? else buf[i]? := by
  have front : (buf.take off).length = off := by simp; omega
  rw [overlay, List.append_assoc]
  by_cases before : i < off
  · rw [List.getElem?_append_left (by omega), List.getElem?_take_of_lt before, if_neg (by omega)]
  rw [List.getElem?_append_right (by omega), front]
  by_cases inside : i < off + src.length
  · rw [List.getElem?_append_left (by omega), if_pos ⟨by omega, inside⟩]
  · rw [List.getElem?_append_right (by omega), List.getElem?_drop, if_neg (by omega)]
    congr 1; omega

theorem getElem?_overlay {buf src : List α} {off : Nat} (h : off + src.length ≤ buf.length) (i : Nat) :
    (overlay buf off src)[i]? =
      if off ≤ i ∧ i < off + src.length then src[i - off]? else buf[i]? := getElem?_overlay_of_le (by omega) i

theorem getElem?_slice (buf : List α) (off len i : Nat) :
    ((buf.drop off).take len)[i]? = if i < len then buf[off + i]? else none := by
  rw [List.getElem?_take, List.getElem?_drop]

theorem slice_ok {buf : List α} {off len : Nat} (h : off + len ≤ buf.length) :
    slice buf off len = .ok ((buf.drop off).take len) := if_pos h

theorem overlay_nil (buf : List α) (off : Nat) : overlay buf off [] = buf := by
  simp [overlay]

theorem blit_nil (buf : List α) : blit buf 0 [] = .ok buf := by
  simp [blit, overlay_nil]

/-- A store at the front leaves what is behind it. -/
theorem drop_blit {buf buf' src : List α} {n : Nat} (run : blit buf 0 src = .ok buf') (short : src.length ≤ n) :
    buf'.drop n = buf.drop n := by
  unfold blit at run
  split at run
  · rename_i fits
    obtain rfl := Except.ok.inj run
    apply List.ext_getElem?
    intro i
    rw [List.getElem?_drop, List.getElem?_drop, getElem?_overlay fits, if_neg (by omega)]
  · cases run

theorem memcpy_ok {dst src : List α} {off start len : Nat} (read : start + len ≤ src.length)
    (write : off + len ≤ dst.length) :
    memcpy dst off src start len = .ok (overlay dst off ((src.drop start).take len)) := by
  have size : ((src.drop start).take len).length = len := by simp; omega
  simp only [memcpy, slice_ok read, ok_bind, blit, size, if_pos write]

theorem memcpy_undefined {dst src : List α} {off start len : Nat} (read : src.length < start + len) :
    memcpy dst off src start len = .error .undefined := by
  have outside : ¬ start + len ≤ src.length := by omega
  simp only [memcpy, slice, if_neg outside, error_bind]

/-! ### Pieces of one length -/

def piece (buf : List α) (c k : Nat) : List α := (buf.drop (c * k)).take c

theorem length_piece {buf : List α} {c k : Nat} (h : c * (k + 1) ≤ buf.length) : (piece buf c k).length = c := by
  rw [Nat.mul_succ] at h
  rw [piece, List.length_take, List.length_drop]
  omega

theorem getElem?_piece {c k i : Nat} (buf : List α) (h : i < c) : (piece buf c k)[i]? = buf[c * k + i]? := by
  rw [piece, getElem?_slice, if_pos h]

theorem flatMap_piece (buf : List α) (c n : Nat) : (List.range n).flatMap (piece buf c) = buf.take (c * n) := by
  induction n with
  | zero => simp
  | succ n ih => rw [List.range_succ, List.flatMap_append, ih, List.flatMap_singleton, Nat.mul_succ, List.take_add, piece]

theorem length_flatMap_range {f : Nat → List α} {c n : Nat} (size : ∀ k < n, (f k).length = c) :
    ((List.range n).flatMap f).length = c * n := by
  induction n with
  | zero => rfl
  | succ n ih =>
    rw [List.range_succ, List.flatMap_append, List.length_append, ih fun k h => size k (by omega), List.flatMap_singleton,
      size n (Nat.lt_succ_self n), Nat.mul_succ]

/-- Pieces of one length can be told apart in their concatenation. -/
theorem flatMap_range_inj {f g : Nat → List α} {c n : Nat} (size : ∀ k < n, (f k).length = c) (size' : ∀ k < n, (g k).length = c)
    (same : (List.range n).flatMap f = (List.range n).flatMap g) : ∀ k < n, f k = g k := by
  induction n with
  | zero => exact fun k h => absurd h (Nat.not_lt_zero k)
  | succ n ih =>
    rw [List.range_succ, List.flatMap_append, List.flatMap_append, List.flatMap_singleton, List.flatMap_singleton] at same
    obtain ⟨front, last⟩ := List.append_inj' same ((size n (Nat.lt_succ_self n)).trans (size' n (Nat.lt_succ_self n)).symm)
    intro k h
    by_cases here : k = n
    · rw [here, last]
    · exact ih (fun j hj => size j (by omega)) (fun j hj => size' j (by omega)) front k (by omega)

/-! ### Stretches written by a loop -/

/-- `after` is `before` with the positions `lo` to `hi` holding `value`. -/
def Written (before after : List α) (lo hi : Nat) (value : Nat → Option α) : Prop :=
  ∀ p, after[p]? = if lo ≤ p ∧ p < hi then value p else before[p]?

theorem Written.refl (buf : List α) (lo : Nat) (value : Nat → Option α) : Written buf buf lo lo value := by
  intro p
  rw [if_neg (by omega)]

theorem Written.append {a b c : List α} {lo mid hi : Nat} {value : Nat → Option α}
    (first : Written a b lo mid value) (second : Written b c mid hi value) (h₁ : lo ≤ mid) (h₂ : mid ≤ hi) :
    Written a c lo hi value := by
  intro p
  rw [second p]
  by_cases tail : mid ≤ p ∧ p < hi
  · rw [if_pos tail, if_pos (by omega)]
  rw [if_neg tail, first p]
  by_cases head : lo ≤ p ∧ p < mid
  · rw [if_pos head, if_pos (by omega)]
  · rw [if_neg head, if_neg (by omega)]

theorem Written.congr {a b : List α} {lo hi : Nat} {value value' : Nat → Option α}
    (h : Written a b lo hi value) (same : ∀ p, lo ≤ p → p < hi → value p = value' p) :
    Written a b lo hi value' := by
  intro p
  rw [h p]
  split
  · rename_i inside
    exact same p inside.1 inside.2
  · rfl

theorem written_overlay {buf src : List α} {off : Nat} (h : off + src.length ≤ buf.length) :
    Written buf (overlay buf off src) off (off + src.length) (fun p => src[p - off]?) :=
  getElem?_overlay h

/-- A written stretch is the intended copy of `src` when each position in it agrees: those the loop
reached with what it stored, the others with what was there. -/
theorem Written.eq_overlay_iff {a b src : List α} {off hi : Nat} {value : Nat → Option α}
    (h : Written a b off hi value) (fits : off + src.length ≤ a.length) (inside : hi ≤ off + src.length) :
    b = overlay a off src ↔
      ∀ i < src.length, src[i]? = if off + i < hi then value (off + i) else a[off + i]? := by
  constructor
  · rintro rfl i hi'
    have at_i := h (off + i)
    rw [getElem?_overlay fits, if_pos (by omega), Nat.add_sub_cancel_left] at at_i
    rw [at_i]
    by_cases reached : off + i < hi
    · rw [if_pos reached, if_pos ⟨by omega, reached⟩]
    · rw [if_neg reached, if_neg (by omega)]
  · intro agree
    apply List.ext_getElem?
    intro p
    rw [h p, getElem?_overlay fits]
    by_cases range : off ≤ p ∧ p < off + src.length
    · have at_p := agree (p - off) (by omega)
      rw [show off + (p - off) = p by omega] at at_p
      rw [if_pos range, at_p]
      by_cases reached : p < hi
      · rw [if_pos ⟨range.1, reached⟩, if_pos reached]
      · rw [if_neg (by omega), if_neg reached]
    · rw [if_neg range, if_neg (by omega)]

end StorageStack.Lib
