import Mathlib.Data.Int.CardIntervalMod
import Mathlib.Data.List.Rotate

/-!
# Taking turns

The members of a list that pass a test take turns. A search that goes round the list from any position finds
the member whose turn comes there, and the search that goes on behind it finds the next one.
-/

namespace StorageStack.Lib

variable {α : Type} {p : α → Bool} {l : List α} {k q : Nat} {x : α}

/-- The member whose turn it is the time `k`. -/
def turn (p : α → Bool) (l : List α) (k : Nat) : Option α := (l.filter p)[k % (l.filter p).length]?

/-- How many turns come before position `k`. -/
def rank (p : α → Bool) (l : List α) (k : Nat) : Nat := ((l.take k).filter p).length

@[simp] theorem rank_zero : rank p l 0 = 0 := rfl

theorem filter_rotate (inside : k ≤ l.length) : (l.rotate k).filter p = (l.filter p).rotate (rank p l k) := by
  have split : l.filter p = (l.take k).filter p ++ (l.drop k).filter p := by
    rw [← List.filter_append, List.take_append_drop]
  rw [List.rotate_eq_drop_append_take inside, List.filter_append, split, rank, List.rotate_append_length_eq]

/-- The first member that passes, from position `k` on and then from the front. -/
theorem find?_rotate (some : l.filter p ≠ []) (inside : k ≤ l.length) : (l.rotate k).find? p = turn p l (rank p l k) := by
  have short : rank p l k % (l.filter p).length < (l.filter p).length := Nat.mod_lt _ (List.length_pos_iff.mpr some)
  rw [← List.head?_filter, filter_rotate inside, ← List.rotate_mod, List.head?_rotate short, turn]

theorem turn_mem (found : turn p l k = some x) : x ∈ l ∧ p x = true := List.mem_filter.mp (List.mem_of_getElem? found)

theorem turn_congr {j : Nat} (same : j % (l.filter p).length = k % (l.filter p).length) : turn p l j = turn p l k := by
  rw [turn, turn, same]

/-- In a list that repeats nothing, a member that passes has as many before it as its place among those that pass. -/
theorem rank_of_getElem? {j : Nat} (nodup : l.Nodup) (passing : (l.filter p)[j]? = some x) (place : l[q]? = some x) :
    rank p l q = j := by
  have passes : p x = true := (List.mem_filter.mp (List.mem_of_getElem? passing)).2
  obtain ⟨inside, here⟩ := List.getElem?_eq_some_iff.mp place
  have split : l.filter p = (l.take q).filter p ++ x :: (l.drop (q + 1)).filter p := by
    rw [← List.filter_cons_of_pos passes, ← List.filter_append, ← here, ← List.drop_eq_getElem_cons inside, List.take_append_drop]
  have counted : (l.filter p)[rank p l q]? = some x := by
    rw [split, rank, List.getElem?_append_right (Nat.le_refl _), Nat.sub_self]
    rfl
  obtain ⟨inside', -⟩ := List.getElem?_eq_some_iff.mp counted
  exact (List.getElem?_inj inside' (nodup.filter p)).mp (counted.trans passing.symm)

theorem rank_succ (place : l[q]? = some x) (passes : p x = true) : rank p l (q + 1) = rank p l q + 1 := by
  rw [rank, List.take_add_one, List.filter_append, List.length_append, rank, place]
  simp [passes]

/-- Behind the member whose turn it was comes the next one. -/
theorem turn_next (nodup : l.Nodup) (found : turn p l k = some x) (place : l[q]? = some x) :
    turn p l (rank p l (q + 1)) = turn p l (k + 1) := by
  rw [rank_succ place (turn_mem found).2, rank_of_getElem? nodup found place]
  exact turn_congr (Nat.mod_add_mod ..)

/-! ### Shares -/

/-- How many of the first `n` turns are those of the member at place `i`. -/
theorem count_turns {m : Nat} (i n : Nat) (inside : i < m) :
    n / m ≤ ((List.range n).filter fun j => j % m = i).length ∧
      ((List.range n).filter fun j => j % m = i).length ≤ n / m + 1 := by
  have same : ((List.range n).filter fun j => j % m = i).length = n.count (· ≡ i [MOD m]) := by
    rw [Nat.count, List.countP_eq_length_filter]
    congr 2
    funext j
    refine decide_eq_decide.mpr ?_
    show j % m = i ↔ j % m = i % m
    rw [Nat.mod_eq_of_lt inside]
  rw [same, Nat.count_modEq_card n (by omega)]
  split <;> omega

end StorageStack.Lib
