import Metrology.Decimal.Binary

/-!
# Rounding to a number of digits

The exact value is rounded to a given number of significant digits; a value half-way between two
decimals goes to the one whose last digit is even.
-/
namespace Metrology.Binary

/-- The quotient rounded to the nearest natural number, a half to the even one. -/
def roundHalfEven (num den : Nat) : Nat :=
  let q := num / den
  match compare (2 * (num % den)) den with
  | .lt => q
  | .gt => q + 1
  | .eq => if q % 2 = 0 then q else q + 1

/-- The value rounded to `n` significant digits, written with exactly `n` of them. -/
def rounded (x : Binary) (n : Nat) : Decimal :=
  if x.significand = 0 then ⟨0, 1 - (n : Int)⟩
  else
    let place := x.scale - n
    let (num, den) := x.quotient place
    let q := roundHalfEven num den
    if q = Decimal.ten n then ⟨q / 10, place + 1⟩ else ⟨q, place⟩

end Metrology.Binary
