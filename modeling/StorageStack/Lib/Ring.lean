import Mathlib.Data.Nat.ModEq

/-!
# Rings

A ring has a fixed number of slots and is filled round and round: entry number `j` goes to slot `j % k`, over
the entry that was `k` before it. The latest `k` entries are there, in ring order up to the next slot.
-/

namespace StorageStack.Lib

variable {α : Type} {queue entries : List α} {next j j' k : Nat} {x : α}

/-- The latest of `entries` are in the ring, and `next` is the slot behind the last one. -/
structure RingHolds (queue : List α) (next : Nat) (entries : List α) : Prop where
  next : next = entries.length % queue.length
  latest : ∀ j < entries.length, entries.length ≤ j + queue.length → queue[j % queue.length]? = entries[j]?

/-- Among `k` entries in a row each has a slot of its own. -/
theorem ring_slot_inj (below : j < j' + k) (below' : j' < j + k) (same : j % k = j' % k) : j = j' :=
  Nat.ModEq.eq_of_abs_lt same (by rw [abs_lt]; constructor <;> omega)

theorem RingHolds.empty (queue : List α) : RingHolds queue 0 [] :=
  ⟨(Nat.zero_mod _).symm, fun j high => absurd high (Nat.not_lt_zero j)⟩

theorem RingHolds.next_lt (holds : RingHolds queue next entries) (slots : 0 < queue.length) : next < queue.length := by
  rw [holds.next]
  exact Nat.mod_lt _ slots

/-- A new entry takes the next slot and leaves the latest others where they are. -/
theorem RingHolds.push (holds : RingHolds queue next entries) (slots : 0 < queue.length) (x : α) :
    RingHolds (queue.set next x) ((next + 1) % queue.length) (entries ++ [x]) := by
  have here := holds.next_lt slots
  refine ⟨?_, fun j high recent => ?_⟩
  · rw [List.length_set, List.length_append, List.length_singleton, holds.next, Nat.mod_add_mod]
  · rw [List.length_append, List.length_singleton, List.length_set] at *
    by_cases last : j = entries.length
    · rw [last, ← holds.next, List.getElem?_set_self here, List.getElem?_concat_length]
    · have other : next ≠ j % queue.length := by
        intro same
        rw [holds.next] at same
        exact last (ring_slot_inj (by omega) (by omega) same).symm
      rw [List.getElem?_set_ne other, holds.latest j (by omega) (by omega), List.getElem?_append_left (by omega)]

end StorageStack.Lib
