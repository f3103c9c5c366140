import Metrology.Decimal.Notation
import Metrology.Factor

/-!
# Reporting factors

A factor given from outside, its absolute error, the number of decimal digits that can be trusted,
and its text.
-/
namespace Metrology.Factor

/-- A factor with the error given for it, or with the error of reading it. -/
def given (value : Float) (error : Option Float) : Except Error (Factor Float) :=
  match error with
  | none => .ok (read value)
  | some error =>
    if error < 0.0 || error.isNaN then .error (.errorBound error) else .ok ⟨value, error⟩

def absoluteError (f : Factor Float) : Float := f.value.abs * f.error

/-- Nothing for an exact factor, whose digits can all be trusted. -/
def significantDigits? (f : Factor Float) : Option Nat :=
  if f.isExact then none
  else if !f.error.isFinite then some 0
  else some (-(f.error.log10)).floor.toInt64.toInt.toNat

def text (f : Factor Float) : String :=
  Notation.value.write f.value ++ " ± " ++ Notation.errorBound.write f.absoluteError

end Metrology.Factor
