/-!
# Outcomes of C code

A call of a C function either returns or it does not: it may leave the objects it was given, after
which nothing is known, or it may loop for ever. `Outcome` keeps the two apart from a result, and
this module has the rules to take a composed call apart.
-/

namespace StorageStack.Lib

/-- Why a call has no result. -/
inductive Trap where
  /-- An access outside an object, or a use of a value nothing wrote. -/
  | undefined
  /-- A loop that no step leaves. -/
  | spins
  deriving DecidableEq, Repr

abbrev Outcome := Except Trap

theorem bind_ok {α β : Type} {x : Outcome α} {f : α → Outcome β} {b : β}
    (h : (x >>= f) = .ok b) : ∃ a, x = .ok a ∧ f a = .ok b := by
  cases x with
  | error e => cases h
  | ok a => exact ⟨a, rfl, h⟩

@[simp] theorem ok_bind {α β : Type} (a : α) (f : α → Outcome β) : (Except.ok a >>= f) = f a := rfl

@[simp] theorem error_bind {α β : Type} (e : Trap) (f : α → Outcome β) :
    ((Except.error e : Outcome α) >>= f) = .error e := rfl

@[simp] theorem pure_eq_ok {α : Type} (a : α) : (pure a : Outcome α) = .ok a := rfl

/-- The call returns a result that passes the test. -/
def check {α : Type} (test : α → Bool) : Outcome α → Bool
  | .ok a => test a
  | .error _ => false

theorem of_check {α : Type} {test : α → Bool} {x : Outcome α} (h : check test x = true) :
    ∃ a, x = .ok a ∧ test a = true := by
  cases x with
  | error e => cases h
  | ok a => exact ⟨a, rfl, h⟩

/-! ### Termination -/

/-- The call comes to an end, by returning or by leaving its objects. -/
def Ends {α : Type} (x : Outcome α) : Prop := x ≠ .error .spins

theorem ends_ok {α : Type} (a : α) : Ends (.ok a : Outcome α) := nofun

theorem ends_undefined {α : Type} : Ends (.error .undefined : Outcome α) := nofun

theorem ends_guard {α : Type} {p : Prop} [Decidable p] {x : Outcome α} (inside : p → Ends x) :
    Ends (if p then x else .error .undefined) := by
  split
  case isTrue h => exact inside h
  case isFalse => exact ends_undefined

theorem Ends.bind {α β : Type} {x : Outcome α} {f : α → Outcome β} (first : Ends x)
    (rest : ∀ a, x = .ok a → Ends (f a)) : Ends (x >>= f) := by
  cases x with
  | error e => exact fun spins => first (congrArg Except.error (Except.error.inj spins))
  | ok a => exact rest a rfl

theorem Ends.first {α β : Type} {x : Outcome α} {f : α → Outcome β} (ends : Ends (x >>= f)) : Ends x := by
  rintro rfl
  exact ends rfl

end StorageStack.Lib
