import StorageStack.Lib.Outcome
import StorageStack.Lib.Bytes
import Mathlib.Data.List.TakeWhile

/-!
# C strings

A string argument is a list of nonzero bytes; memory is a list of bytes in which a string ends at its
first zero. The string functions refuse to run past the memory they are given.
-/

namespace StorageStack.Lib

/-- A string a caller passes: its bytes up to the terminating zero. -/
structure CString where
  bytes : List UInt8
  nonzero : ∀ c ∈ bytes, c ≠ 0
  deriving DecidableEq

namespace CString

/-- The string that starts at the front of `mem`. -/
def scan (mem : List UInt8) : List UInt8 := mem.takeWhile (· ≠ 0)

/-- `strcmp(s, mem) == 0`. -/
def strcmpEq : (mem s : List UInt8) → Outcome Bool
  | [], _ => .error .undefined
  | m :: _, [] => .ok (m == 0)
  | m :: mem, c :: s => if m = c then strcmpEq mem s else .ok false

/-- `strcpy(dst + off, s)`. -/
def strcpy {n : Nat} (dst : Bytes n) (off : Nat) (s : List UInt8) : Outcome (Bytes n) :=
  if off + s.length + 1 ≤ n then .ok (dst.patch off (s ++ [0])) else .error .undefined

/-- What `strncpy(_, mem, len)` stores: the string at `mem`, cut or filled up with zeros to `len` bytes. -/
def strncpy (mem : List UInt8) (len : Nat) : Outcome (List UInt8) :=
  let s := scan (mem.take len)
  if len ≤ mem.length ∨ s.length < mem.length then .ok (s ++ List.replicate (len - s.length) 0)
  else .error .undefined

theorem strcmpEq_ok {mem s : List UInt8} (ends : 0 ∈ mem) (nonzero : ∀ c ∈ s, c ≠ 0) :
    strcmpEq mem s = .ok (decide (scan mem = s)) := by
  induction mem generalizing s with
  | nil => cases ends
  | cons m mem ih =>
    cases s with
    | nil =>
      by_cases zero : m = 0
      · simp [strcmpEq, scan, zero]
      · simp [strcmpEq, scan, zero]
    | cons c s =>
      have hc : c ≠ 0 := nonzero c (List.mem_cons_self ..)
      by_cases same : m = c
      · subst same
        have rest : 0 ∈ mem := by
          rcases List.mem_cons.mp ends with h | h
          · exact absurd h.symm hc
          · exact h
        rw [strcmpEq, if_pos rfl, ih rest fun d hd => nonzero d (List.mem_cons_of_mem _ hd)]
        simp [scan, hc]
      · rw [strcmpEq, if_neg same]
        by_cases zero : m = 0
        · simp [scan, zero]
        · simp [scan, zero, same]

theorem scan_nonzero {mem : List UInt8} {c : UInt8} (h : c ∈ scan mem) : c ≠ 0 := by
  simpa using List.mem_takeWhile_imp h

theorem scan_append_zero {s rest : List UInt8} (nonzero : ∀ c ∈ s, c ≠ 0) : scan (s ++ 0 :: rest) = s := by
  unfold scan
  rw [List.takeWhile_append_of_pos (by simpa using nonzero)]
  simp

theorem strcpy_ok {n : Nat} (dst : Bytes n) {s : List UInt8} (room : s.length < n) :
    strcpy dst 0 s = .ok (dst.patch 0 (s ++ [0])) :=
  if_pos (by omega)

theorem toList_strcpy {n : Nat} (dst : Bytes n) {s : List UInt8} (room : s.length < n) :
    (dst.patch 0 (s ++ [0])).toList = s ++ 0 :: dst.toList.drop (s.length + 1) := by
  have whole := @Bytes.toList_drop_patch _ dst 0 (s ++ [0]) (by rw [List.length_append, List.length_singleton]; omega)
  rw [List.drop_zero, Nat.zero_add, List.append_assoc, List.length_append] at whole
  exact whole

theorem length_scan_lt {mem : List UInt8} (ends : 0 ∈ mem) : (scan mem).length < mem.length := by
  induction mem with
  | nil => cases ends
  | cons c mem ih =>
    by_cases zero : c = 0
    · simp [scan, zero]
    · have rest := ih ((List.mem_cons.mp ends).resolve_left fun same => zero same.symm)
      simpa [scan, zero] using rest

theorem ends_of_length_scan_lt {mem : List UInt8} (short : (scan mem).length < mem.length) : 0 ∈ mem := by
  by_contra endless
  have whole : scan mem = mem := List.takeWhile_eq_self_iff.mpr fun c m => decide_eq_true fun zero => endless (zero ▸ m)
  rw [whole] at short
  exact Nat.lt_irrefl _ short

theorem getElem?_scan {mem : List UInt8} (ends : 0 ∈ mem) : mem[(scan mem).length]? = some 0 := by
  induction mem with
  | nil => cases ends
  | cons c mem ih =>
    by_cases zero : c = 0
    · simp [scan, zero]
    · have rest := ih ((List.mem_cons.mp ends).resolve_left fun same => zero same.symm)
      simpa [scan, zero] using rest

theorem getElem?_scan_of_lt {mem : List UInt8} {i : Nat} (h : i < (scan mem).length) : mem[i]? = (scan mem)[i]? := by
  obtain ⟨rest, whole⟩ := List.takeWhile_prefix (p := (· ≠ 0)) (l := mem)
  have front : scan mem ++ rest = mem := whole
  conv_lhs => rw [← front]
  exact List.getElem?_append_left h

/-- A string ends at the first zero at the latest. -/
theorem length_scan_le_of_zero {mem : List UInt8} {i : Nat} (zero : mem[i]? = some 0) : (scan mem).length ≤ i := by
  by_contra longer
  rw [getElem?_scan_of_lt (by omega)] at zero
  exact scan_nonzero (List.mem_of_getElem? zero) rfl

/-- Only the bytes up to its end matter to a string. -/
theorem scan_congr {mem mem' : List UInt8} (ends : 0 ∈ mem) (same : ∀ i ≤ (scan mem).length, mem'[i]? = mem[i]?) :
    scan mem' = scan mem := by
  have last := same _ (Nat.le_refl _)
  rw [getElem?_scan ends] at last
  have shorter := length_scan_le_of_zero last
  have ends' : 0 ∈ mem' := List.mem_of_getElem? last
  have equal : (scan mem').length = (scan mem).length := by
    refine Nat.le_antisymm shorter (length_scan_le_of_zero ?_)
    rw [← same _ shorter]
    exact getElem?_scan ends'
  apply List.ext_getElem?
  intro i
  by_cases inside : i < (scan mem).length
  · rw [← getElem?_scan_of_lt (by omega), ← getElem?_scan_of_lt inside, same i (by omega)]
  · rw [List.getElem?_eq_none (by omega), List.getElem?_eq_none (by omega)]

theorem length_scan_le (mem : List UInt8) : (scan mem).length ≤ mem.length :=
  (List.takeWhile_sublist _).length_le

theorem strncpy_ok {mem : List UInt8} {len : Nat} (h : len ≤ mem.length) :
    strncpy mem len = .ok (scan (mem.take len) ++ List.replicate (len - (scan (mem.take len)).length) 0) :=
  if_pos (Or.inl h)

theorem length_strncpy {mem bytes : List UInt8} {len : Nat} (h : strncpy mem len = .ok bytes) : bytes.length = len := by
  unfold strncpy at h
  have short := (length_scan_le (mem.take len)).trans (List.length_take_le len mem)
  dsimp only at h
  split at h
  · rw [← Except.ok.inj h, List.length_append, List.length_replicate]
    omega
  · cases h

/-! ### Filling up -/

/-- The string at the front of `bytes`, filled up with zeros to their number. -/
def padded (bytes : List UInt8) : List UInt8 := scan bytes ++ List.replicate (bytes.length - (scan bytes).length) 0

theorem strncpy_padded {mem : List UInt8} {len : Nat} (h : len ≤ mem.length) :
    strncpy mem len = .ok (padded (mem.take len)) := by
  rw [strncpy_ok h, padded, List.length_take, Nat.min_eq_left h]

@[simp] theorem length_padded (bytes : List UInt8) : (padded bytes).length = bytes.length := by
  have short := length_scan_le bytes
  rw [padded, List.length_append, List.length_replicate]
  omega

theorem padded_zero_cons (bytes : List UInt8) : padded (0 :: bytes) = 0 :: List.replicate bytes.length 0 := by
  simp [padded, scan, List.replicate_succ]

theorem padded_cons {c : UInt8} (bytes : List UInt8) (nonzero : c ≠ 0) : padded (c :: bytes) = c :: padded bytes := by
  simp [padded, scan, nonzero]

/-- Every byte behind a zero is zero. -/
def ZerosLast (bytes : List UInt8) : Prop := ∀ i j, i < j → j < bytes.length → bytes[i]? = some 0 → bytes[j]? = some 0

/-- Filling up loses nothing when the bytes behind the first zero are zeros. -/
theorem padded_eq_self_iff (bytes : List UInt8) : padded bytes = bytes ↔ ZerosLast bytes := by
  induction bytes with
  | nil => exact ⟨fun _ i j _ high => absurd high (Nat.not_lt_zero j), fun _ => rfl⟩
  | cons c bytes ih =>
    by_cases zero : c = 0
    · subst zero
      rw [padded_zero_cons, List.cons_eq_cons, and_iff_right rfl]
      constructor
      · intro same i j low high _
        obtain ⟨j, rfl⟩ := Nat.exists_eq_succ_of_ne_zero (by omega : j ≠ 0)
        rw [Nat.succ_eq_add_one, List.getElem?_cons_succ, ← same, List.getElem?_replicate, if_pos]
        simpa using high
      · intro last
        apply List.ext_getElem?
        intro j
        rw [List.getElem?_replicate]
        split
        · rename_i inside
          exact (last 0 (j + 1) (by omega) (by simpa using inside) rfl).symm
        · rename_i outside
          rw [List.getElem?_eq_none (by omega)]
    · rw [padded_cons _ zero, List.cons_eq_cons, and_iff_right rfl, ih]
      constructor
      · intro last i j low high first
        obtain ⟨j, rfl⟩ := Nat.exists_eq_succ_of_ne_zero (by omega : j ≠ 0)
        cases i with
        | zero => exact absurd (Option.some.inj first) zero
        | succ i => exact last i j (by omega) (by simpa using high) first
      · intro last i j low high first
        exact last (i + 1) (j + 1) (by omega) (by simpa using high) first

theorem padded_padded (bytes : List UInt8) : padded (padded bytes) = padded bytes := by
  induction bytes with
  | nil => rfl
  | cons c bytes ih =>
    by_cases zero : c = 0
    · subst zero
      rw [padded_zero_cons, padded_zero_cons, List.length_replicate]
    · rw [padded_cons _ zero, padded_cons _ zero, ih]

end CString

end StorageStack.Lib
