import Mathlib.Data.Fintype.Pigeonhole
import Mathlib.Logic.Function.Iterate

/-!
# Chains of ids

A linked list through `next`, with 0 for no id. A chain that ends has no repetitions, and one that
never joins another branch and stays below a bound ends.
-/

namespace StorageStack.Lib

/-- `ids` are what a walk from `start` meets before it reads 0. -/
def Chain (next : Nat → Nat) : (start : Nat) → (ids : List Nat) → Prop
  | start, [] => start = 0
  | start, id :: ids => id = start ∧ id ≠ 0 ∧ Chain next (next id) ids

namespace Chain

variable {next next' : Nat → Nat} {start : Nat} {ids : List Nat}

theorem unique {ids' : List Nat} (h : Chain next start ids) (h' : Chain next start ids') : ids = ids' := by
  induction ids generalizing start ids' with
  | nil =>
    cases ids' with
    | nil => rfl
    | cons id ids' => exact absurd (h'.1.trans h) h'.2.1
  | cons id ids ih =>
    cases ids' with
    | nil => exact absurd (h.1.trans h') h.2.1
    | cons id' ids' =>
      obtain rfl : id = id' := h.1.trans h'.1.symm
      rw [ih h.2.2 h'.2.2]

theorem head_mem (h : Chain next start ids) (some : start ≠ 0) : start ∈ ids := by
  cases ids with
  | nil => exact absurd h some
  | cons id ids =>
    rw [← h.1]
    exact List.mem_cons_self ..

theorem congr (h : Chain next start ids) (same : ∀ id ∈ ids, next' id = next id) : Chain next' start ids := by
  induction ids generalizing start with
  | nil => exact h
  | cons id ids ih =>
    refine ⟨h.1, h.2.1, ?_⟩
    rw [same id (List.mem_cons_self ..)]
    exact ih h.2.2 fun id' h' => same id' (List.mem_cons_of_mem _ h')

theorem ne_zero (h : Chain next start ids) {id : Nat} (member : id ∈ ids) : id ≠ 0 := by
  induction ids generalizing start with
  | nil => cases member
  | cons first ids ih =>
    rcases List.mem_cons.mp member with rfl | later
    · exact h.2.1
    · exact ih h.2.2 later

theorem eq_nil_iff (h : Chain next start ids) : ids = [] ↔ start = 0 := by
  cases ids with
  | nil => simp [show start = 0 from h]
  | cons id ids => simpa using fun same => h.2.1 (h.1.trans same)

theorem suffix {front back : List Nat} {id : Nat} (h : Chain next start (front ++ id :: back)) :
    Chain next id (id :: back) := by
  induction front generalizing start with
  | nil => exact ⟨rfl, h.2⟩
  | cons first front ih => exact ih h.2.2

theorem nodup (h : Chain next start ids) : ids.Nodup := by
  induction ids generalizing start with
  | nil => exact List.nodup_nil
  | cons id ids ih =>
    refine List.nodup_cons.mpr ⟨fun again => ?_, ih h.2.2⟩
    obtain ⟨front, back, same⟩ := List.append_of_mem again
    have whole : Chain next id (id :: ids) := ⟨rfl, h.2⟩
    have later : Chain next id (id :: back) := by
      have tail := h.2.2
      rw [same] at tail
      exact tail.suffix
    have lengths := congrArg List.length (whole.unique later)
    rw [same] at lengths
    simp at lengths
    omega

/-- Giving an id another successor, with the chain that goes on from there. -/
theorem relink {last : Nat} {front old back : List Nat} (h : Chain next start (front ++ last :: old))
    (same : ∀ id ∈ front, next' id = next id) (rest : Chain next' (next' last) back) :
    Chain next' start (front ++ last :: back) := by
  induction front generalizing start with
  | nil => exact ⟨h.1, h.2.1, rest⟩
  | cons id front ih =>
    refine ⟨h.1, h.2.1, ?_⟩
    rw [same id (List.mem_cons_self ..)]
    exact ih h.2.2 fun id' h' => same id' (List.mem_cons_of_mem _ h')

theorem of_iterate {k : Nat} (h : next^[k] start = 0) : ∃ ids, Chain next start ids ∧ ids.length ≤ k := by
  induction k generalizing start with
  | zero => exact ⟨[], h, Nat.le_refl _⟩
  | succ k ih =>
    by_cases ended : start = 0
    · exact ⟨[], ended, Nat.zero_le _⟩
    · obtain ⟨ids, chain, short⟩ := ih h
      exact ⟨start :: ids, ⟨rfl, ended, chain⟩, Nat.succ_le_succ short⟩

theorem next_mem (h : Chain next start ids) {id : Nat} (member : id ∈ ids) (more : next id ≠ 0) : next id ∈ ids := by
  induction ids generalizing start with
  | nil => cases member
  | cons first ids ih =>
    obtain ⟨rfl, -, rest⟩ := h
    rcases List.mem_cons.mp member with rfl | later
    · cases ids with
      | nil => exact absurd rest more
      | cons second ids => exact rest.1 ▸ List.mem_cons_of_mem _ (List.mem_cons_self ..)
    · exact List.mem_cons_of_mem _ (ih rest later)

theorem forall_mem {P : Nat → Prop} (h : Chain next start ids) (first : start ≠ 0 → P start)
    (closed : ∀ x, P x → next x ≠ 0 → P (next x)) : ∀ id ∈ ids, P id := by
  induction ids generalizing start with
  | nil => intro id member; cases member
  | cons id ids ih =>
    obtain rfl := h.1
    have here := first h.2.1
    intro x member
    rcases List.mem_cons.mp member with rfl | later
    · exact here
    · exact ih h.2.2 (closed id here) x later

/-- A walk from `start` that ends with 0 comes to `b`. -/
inductive Met (next : Nat → Nat) : (start b : Nat) → Prop
  | here {b : Nat} (some : b ≠ 0) : Met next b b
  | later {start b : Nat} (some : start ≠ 0) (rest : Met next (next start) b) : Met next start b

theorem Met.mem {b : Nat} (met : Met next start b) (h : Chain next start ids) : b ∈ ids := by
  induction met generalizing ids with
  | here some => exact h.head_mem some
  | later some _ ih =>
    cases ids with
    | nil => exact absurd h some
    | cons id ids =>
      obtain ⟨rfl, -, rest⟩ := h
      exact List.mem_cons_of_mem _ (ih rest)

theorem Met.start_ne_zero {b : Nat} (met : Met next start b) : start ≠ 0 := by
  cases met with
  | here some => exact some
  | later some _ => exact some

/-- As long as it is counted, a walk that does not look for 0 stays on the chain. -/
theorem iterate_mem {i : Nat} (h : Chain next start ids) (inside : i < ids.length) : next^[i] start ∈ ids := by
  induction i generalizing start ids with
  | zero =>
    cases ids with
    | nil => cases inside
    | cons id ids => exact h.1 ▸ List.mem_cons_self ..
  | succ i ih =>
    cases ids with
    | nil => cases inside
    | cons id ids =>
      obtain ⟨rfl, -, rest⟩ := h
      rw [Function.iterate_succ_apply]
      exact List.mem_cons_of_mem _ (ih rest (Nat.lt_of_succ_lt_succ inside))

end Chain

/-- A walk that stays below `N`, in which no two ids have the same successor and none leads back to the
start, ends after at most `N` ids. -/
theorem exists_chain {next : Nat → Nat} {start N : Nat} {P : Nat → Prop} (first : start ≠ 0 → P start)
    (closed : ∀ x, P x → next x ≠ 0 → P (next x)) (bounded : ∀ x, P x → x < N)
    (injective : ∀ x y, P x → P y → next x = next y → next x ≠ 0 → x = y)
    (fresh : ∀ x, P x → next x = start → start = 0) :
    ∃ ids, Chain next start ids ∧ ids.length ≤ N ∧ ∀ id ∈ ids, P id := by
  have ends : ∃ k ≤ N, next^[k] start = 0 := by
    by_contra never
    have nonzero : ∀ k ≤ N, next^[k] start ≠ 0 := fun k hk zero => never ⟨k, hk, zero⟩
    have inside : ∀ k ≤ N, P (next^[k] start) := by
      intro k hk
      induction k with
      | zero => exact first (nonzero 0 hk)
      | succ k ih =>
        rw [Function.iterate_succ_apply']
        refine closed _ (ih (by omega)) ?_
        rw [← Function.iterate_succ_apply' next]
        exact nonzero _ hk
    -- Two steps that agree can be taken back together until one of them is the start.
    have distinct : ∀ i j, i < j → j ≤ N → next^[i] start ≠ next^[j] start := by
      intro i
      induction i with
      | zero =>
        intro j hj hN same
        obtain ⟨j, rfl⟩ := Nat.exists_eq_succ_of_ne_zero (by omega : j ≠ 0)
        rw [Function.iterate_succ_apply'] at same
        exact nonzero 0 (by omega) (fresh _ (inside j (by omega)) same.symm)
      | succ i ih =>
        intro j hj hN same
        obtain ⟨j, rfl⟩ := Nat.exists_eq_succ_of_ne_zero (by omega : j ≠ 0)
        have here := nonzero (i + 1) (by omega)
        rw [Function.iterate_succ_apply'] at same here
        rw [Function.iterate_succ_apply' next j] at same
        exact ih j (by omega) (by omega) (injective _ _ (inside i (by omega)) (inside j (by omega)) same here)
    let place : Fin (N + 1) → Fin N := fun k => ⟨next^[k.val] start, bounded _ (inside k.val (by omega))⟩
    obtain ⟨i, j, different, same⟩ := Fintype.exists_ne_map_eq_of_card_lt place (by simp)
    have equal : next^[i.val] start = next^[j.val] start := congrArg Fin.val same
    rcases Nat.lt_or_gt_of_ne (fun h => different (Fin.ext h)) with h | h
    · exact distinct i j h (by omega) equal
    · exact distinct j i h (by omega) equal.symm
  obtain ⟨k, hk, zero⟩ := ends
  obtain ⟨ids, chain, short⟩ := Chain.of_iterate zero
  exact ⟨ids, chain, short.trans hk, chain.forall_mem first closed⟩

end StorageStack.Lib
