/-
This file develops signed arithmetic of 64 bits whose overflow has no value.
-/

import Mathlib.Tactic

namespace AuthHttpsig.Checked

/-- A signed integer of 64 bits has this range. -/
def InRange (value : Int) : Prop := -2 ^ 63 ≤ value ∧ value < 2 ^ 63

instance (value : Int) : Decidable (InRange value) := inferInstanceAs (Decidable (_ ∧ _))

/-- An overflow is undefined. -/
def narrow (value : Int) : Option Int := if InRange value then some value else none

def add (left right : Int) : Option Int := narrow (left + right)

def sub (left right : Int) : Option Int := narrow (left - right)

def mul (left right : Int) : Option Int := narrow (left * right)

/-- A value within a bound that is in range does not overflow. -/
theorem narrow_eq {value bound : Int} (small : bound < 2 ^ 63) (low : -bound ≤ value)
    (high : value ≤ bound) : narrow value = some value :=
  if_pos ⟨by omega, by omega⟩

end AuthHttpsig.Checked
