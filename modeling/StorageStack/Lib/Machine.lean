import Mathlib.Tactic.Common

/-!
# Machine integers

Values of C integer types are `Nat` or `Int`. An operation that can leave its type's range goes
through one of the wrappers below.
-/

namespace StorageStack.Lib

/-- The value of type `int` that `x` has in two's complement. -/
def toInt32 (x : Int) : Int := (x + 2147483648) % 4294967296 - 2147483648

/-- The value of type `unsigned int` that `x` has. -/
def toU32 (x : Int) : Nat := (x % 4294967296).toNat

theorem toInt32_of_range {x : Int} (low : -2147483648 ≤ x) (high : x < 2147483648) : toInt32 x = x := by
  unfold toInt32; omega

end StorageStack.Lib
