import Mathlib.Algebra.Group.Int.Defs
import Mathlib.Data.Int.Notation
import Mathlib.Data.Option.Basic
/-!
# Checked 64-bit arithmetic

A signed 64-bit operation has its exact result where that is in range, and no
result elsewhere.

- `checked_eq_some_iff`: when there is a result.
-/

namespace Lib

/-- In the range of a signed 64-bit count. -/
def Fits (x : Int) : Prop := -2 ^ 63 ≤ x ∧ x < 2 ^ 63

instance instDecidableFits (x : Int) : Decidable (Fits x) := inferInstanceAs (Decidable (_ ∧ _))

def checked (x : Int) : Option Int := if Fits x then some x else none

theorem checked_of_fits {x : Int} (h : Fits x) : checked x = some x := if_pos h

theorem checked_of_not_fits {x : Int} (h : ¬ Fits x) : checked x = none := if_neg h

theorem checked_eq_some_iff {x y : Int} : checked x = some y ↔ Fits x ∧ x = y := by
  by_cases h : Fits x
  · rw [checked_of_fits h, Option.some_inj, and_iff_right h]
  · rw [checked_of_not_fits h]
    exact iff_of_false (fun hnone => nomatch hnone) fun hfits => h hfits.1

end Lib
