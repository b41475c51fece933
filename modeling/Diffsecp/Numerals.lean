import Mathlib.Algebra.NeZero
import Mathlib.Algebra.Ring.Nat
import Mathlib.Data.Nat.Cast.Defs

/-!
# Numerals

The numerals that indices and coefficients are written with. Each instance is
a constant, so that a definition that uses one holds no proof of its own.
-/

namespace Numerals

instance (priority := high) neZero_two : NeZero 2 := ⟨by decide⟩

instance (priority := high) neZero_three : NeZero 3 := ⟨by decide⟩

instance (priority := high) neZero_four : NeZero 4 := ⟨by decide⟩

instance (priority := high) neZero_thirtyTwo : NeZero 32 := ⟨by decide⟩

instance (priority := high) neZero_sixtyFour : NeZero 64 := ⟨by decide⟩

instance (priority := high) atLeastTwo_two : Nat.AtLeastTwo 2 := ⟨by decide⟩

instance (priority := high) atLeastTwo_three : Nat.AtLeastTwo 3 := ⟨by decide⟩

instance (priority := high) atLeastTwo_four : Nat.AtLeastTwo 4 := ⟨by decide⟩

instance (priority := high) atLeastTwo_seven : Nat.AtLeastTwo 7 := ⟨by decide⟩

end Numerals
