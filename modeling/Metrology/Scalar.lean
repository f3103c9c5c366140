import Metrology.Decimal.Binary
import Metrology.Error

/-!
# Numbers that factors are made of

Conversion is written once for every kind of number that offers these operations. Answers are
computed with doubles; the laws of conversion are stated for numbers whose operations are exact.
-/
namespace Metrology

class Scalar (K : Type) where
  zero : K
  one : K
  add : K → K → K
  mul : K → K → K
  div : K → K → K
  /-- A power with an integer exponent, which may be too large or not exist. -/
  pow : K → Int → Except Error K
  ofDecimal : Decimal → K
  same : K → K → Bool
  isZero : K → Bool
  /-- Whether the number is known to be zero or less. -/
  isNotPositive : K → Bool
  /-- Relative error of reading the number where none is given. -/
  readingError : K → K

namespace Scalar

variable {K : Type} [Scalar K]

def ofNat (n : Nat) : K := ofDecimal ⟨n, 0⟩

end Scalar

/-- Powers of ten that no double comes near. -/
def farPower : Int := 400

/-- The double nearest to a decimal. A decimal far above or far below every double is not
computed. -/
def Decimal.toFloat (d : Decimal) : Float :=
  let leading := d.exponent + (Nat.toDigits 10 d.digits).length
  if d.digits = 0 || leading < -farPower then 0.0
  else if farPower < leading then 1.0 / 0.0
  else Float.ofScientific d.digits (d.exponent < 0) d.exponent.natAbs

/-- Whether a binary value is a natural number. -/
def Binary.isWhole (x : Binary) : Bool := x.significand % Binary.two (-x.exponent).toNat == 0

/-- Half a unit in the last place relative to the value; nothing for whole numbers, which are read
exactly. -/
def halfUlp (x : Float) : Float :=
  if x == 0.0 || !x.isFinite || (Binary.ofBits x.toBits).isWhole then 0.0
  else
    let size := x.abs
    (Float.ofBits (size.toBits + 1) - size) * 0.5 / size

/-- Integer powers of doubles. Zero has no negative power; a power of a finite number that exceeds
every double is too large, as is an exponent that does. The first power and the powers of 1 need no
computation. -/
def floatPow (x : Float) (n : Int) : Except Error Float :=
  let e := Float.ofInt n
  if e.isInf then .error .powerTooLarge
  else if n = 0 || x == 1.0 then .ok 1.0
  else if n = 1 then .ok x
  else if x == 0.0 && n < 0 then .error .zeroToNegativePower
  else
    let power := Float.pow x e
    if power.isInf && x.isFinite then .error .powerTooLarge else .ok power

instance : Scalar Float where
  zero := 0.0
  one := 1.0
  add := (· + ·)
  mul := (· * ·)
  div := (· / ·)
  pow := floatPow
  ofDecimal := Decimal.toFloat
  same := (· == ·)
  isZero x := x == 0.0
  isNotPositive x := x ≤ 0.0
  readingError := halfUlp

end Metrology
