import Metrology.Decimal

/-!
# Binary values

A finite double without its sign is a natural number times a power of two. Its interval holds the
reals that round to it: from half-way to the value below to half-way to the value above, the ends
included when its significand is even.
-/
namespace Metrology

/-- The number `significand * 2 ^ exponent`. -/
structure Binary where
  significand : Nat
  exponent : Int
  /-- The value below is nearer than the value above: the least significand of its binade. -/
  narrowBelow : Bool
  deriving DecidableEq, Repr

namespace Binary

def two (n : Nat) : Nat := Nat.pow 2 n

/-- Significands of normal doubles start here. -/
def unit : Nat := two 52

/-- The value of the bits of a finite double, whatever its sign. -/
def ofBits (bits : UInt64) : Binary :=
  let e : Nat := bits.toNat / unit % two 11
  let f : Nat := bits.toNat % unit
  if e = 0 then ⟨f, -1074, false⟩ else ⟨unit + f, (e : Int) - 1075, f = 0 && 1 < e⟩

/-- Numerator and denominator of the value divided by `10 ^ place`. -/
def quotient (x : Binary) (place : Int) : Nat × Nat :=
  (x.significand * two x.exponent.toNat * Decimal.ten (-place).toNat,
    two (-x.exponent).toNat * Decimal.ten place.toNat)

/-- Compares a decimal with `n * 2 ^ e` exactly. -/
def compareDecimal (d : Decimal) (n : Nat) (e : Int) : Ordering :=
  compare (d.digits * Decimal.ten d.exponent.toNat * two (-e).toNat)
    (n * two e.toNat * Decimal.ten (-d.exponent).toNat)

/-- Whether the decimal lies in the interval of the value. -/
def readsBack (x : Binary) (d : Decimal) : Bool :=
  let least := if x.narrowBelow then 4 * x.significand - 1 else 4 * x.significand - 2
  let greatest := 4 * x.significand + 2
  let even := x.significand % 2 == 0
  let below := compareDecimal d least (x.exponent - 2)
  let above := compareDecimal d greatest (x.exponent - 2)
  (below == .gt || (even && below == .eq)) && (above == .lt || (even && above == .eq))

/-- Whether the value is less than `10 ^ k`. -/
def lessThanPower (x : Binary) (k : Int) : Bool :=
  compareDecimal ⟨1, k⟩ x.significand x.exponent == .gt

/-- The number of digits before the point: the least `k` with the value below `10 ^ k`, for a value
that is not zero. The binary logarithm gives it up to a step. -/
def scale (x : Binary) : Int :=
  let guess := ((x.significand.log2 : Int) + x.exponent) * 30103 / 100000
  if x.lessThanPower (guess - 1) then guess - 1
  else if x.lessThanPower guess then guess
  else if x.lessThanPower (guess + 1) then guess + 1
  else guess + 2

end Binary

end Metrology
