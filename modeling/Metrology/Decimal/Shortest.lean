import Metrology.Decimal.Binary

/-!
# The fewest digits that read back

Of the decimals that round to a value those with the fewest digits are sought, and of these the one
nearest to the value; of two equally near the even one. If a grid of decimals has a point in the
interval of the value, one of the value's two neighbours on the grid is such a point, so those two
are tried on ever finer grids.
-/
namespace Metrology.Binary

/-- The better neighbour of the value on the grid of `10 ^ place`, if one reads back. -/
def onGrid? (x : Binary) (place : Int) : Option Decimal :=
  let (num, den) := x.quotient place
  let lower : Decimal := ⟨num / den, place⟩
  let upper : Decimal := ⟨num / den + 1, place⟩
  match x.readsBack lower, x.readsBack upper with
  | true, true =>
    match compare (2 * num) ((2 * lower.digits + 1) * den) with
    | .lt => some lower
    | .gt => some upper
    | .eq => some (if lower.digits % 2 = 0 then lower else upper)
  | true, false => some lower
  | false, true => some upper
  | false, false => none

/-- Digits that always suffice to tell doubles apart. -/
def maxDigits : Nat := 17

/-- The decimal that stands for the value: the fewest digits that read back. -/
def shortest (x : Binary) : Decimal :=
  if x.significand = 0 then ⟨0, 0⟩
  else
    let k := x.scale
    match (List.range maxDigits).findSome? fun n : Nat => x.onGrid? (k - (n + 1)) with
    | some d => d.stripZeros maxDigits
    | none =>
      let (num, den) := x.quotient (k - maxDigits)
      ⟨num / den, k - maxDigits⟩

end Metrology.Binary
