import Metrology.Text.Superscript
import Metrology.Unit

/-!
# Terms

A term is a unit with an optional prefix, raised to a power (`km2`, `s⁻¹`). Exponents are never zero
and never larger than `maxExponent`, and the unit accepts the prefix.
-/
namespace Metrology

/-- The two ways in which a symbol is written. -/
inductive Script where
  | ascii | unicode
  deriving DecidableEq, Repr

structure Term (K : Type) where
  unit : NamedUnit K
  scaling : Option (Prefix K)
  exponent : Int
  deriving DecidableEq, Repr

namespace Term

variable {K : Type} [Scalar K]

/-- A term of which every part is allowed; of several faults the exponent is reported first. -/
def make (unit : NamedUnit K) (scaling : Option (Prefix K)) (exponent : Int) :
    Except Error (Term K) :=
  if exponent = 0 then .error (.zeroExponent unit.asciiSymbol)
  else if maxExponent < exponent.natAbs then .error (.exponentOutOfRange exponent unit.asciiSymbol)
  else match scaling with
    | none => .ok ⟨unit, none, exponent⟩
    | some p =>
      if unit.accepts p then .ok ⟨unit, some p, exponent⟩
      else .error (.prefixRefused unit.asciiSymbol p.asciiSymbol)

def scalingSymbol (t : Term K) : String := (t.scaling.map (·.asciiSymbol)).getD ""

def isScalar (t : Term K) : Bool := t.unit.isScalar

/-- The factor of the prefix, 1 without one. -/
def scalingMultiplier (t : Term K) : K :=
  match t.scaling with
  | none => Scalar.one
  | some p => p.multiplier

def multiplier (t : Term K) : Except Error K := Scalar.pow t.scalingMultiplier t.exponent

def dimension (t : Term K) : Except Error Dimension := (t.unit.dimension.pow t.exponent).checked

def withExponent (t : Term K) (n : Int) : Except Error (Term K) := make t.unit t.scaling n

def inv (t : Term K) : Except Error (Term K) := t.withExponent (-t.exponent)

def pow (t : Term K) (n : Int) : Except Error (Term K) := t.withExponent (t.exponent * n)

def withoutPrefix (t : Term K) : Except Error (Term K) := make t.unit none t.exponent

def withoutExponent (t : Term K) : Except Error (Term K) := t.withExponent 1

/-- The symbol with a given exponent, which is left out when it is 1. -/
def writeWith (script : Script) (t : Term K) (n : Int) : String :=
  match script with
  | .ascii => t.scalingSymbol ++ t.unit.asciiSymbol ++ (if n = 1 then "" else toString n)
  | .unicode =>
    (t.scaling.map (·.unicodeSymbol)).getD "" ++ t.unit.unicodeSymbol
      ++ (if n = 1 then "" else Text.toSuperscript (toString n))

def write (script : Script) (t : Term K) : String := t.writeWith script t.exponent

/-- Whether two terms differ in nothing but their exponents. -/
def sameBase (t u : Term K) : Bool :=
  t.unit.asciiSymbol = u.unit.asciiSymbol && t.scalingSymbol = u.scalingSymbol

def same (t u : Term K) : Bool := t.sameBase u && t.exponent = u.exponent

/-- Whether the unit measures a single axis. -/
def isBase (t : Term K) : Bool := t.unit.dimension.baseAxis?.isSome

/-- Whether the term, but for its exponent, is the SI base unit of an axis with its prefix. -/
def isSIBase (t : Term K) : Bool :=
  match t.unit.dimension.baseAxis? with
  | none => false
  | some a => t.writeWith .ascii 1 = a.siSymbol

end Term

end Metrology
