import Metrology.Decimal.Rounded
import Metrology.Decimal.Shortest

/-!
# Writing numbers

A notation says which digits of a number are written and how they are laid out: positionally when
the exponent of the leading digit lies in a given range, otherwise with a signed exponent of at
least two digits.
-/
namespace Metrology

inductive DigitChoice where
  /-- the fewest digits that read back -/
  | shortest
  /-- so many significant digits, zeros at the end dropped -/
  | atMost (count : Nat)
  /-- exactly so many significant digits -/
  | exactly (count : Nat)
  deriving DecidableEq, Repr

structure Notation where
  digits : DigitChoice
  /-- Leading digits with an exponent of at least `positionalFrom` … -/
  positionalFrom : Int
  /-- … and less than `positionalBelow` are written positionally. -/
  positionalBelow : Int
  /-- Whole numbers written positionally end in `.0`. -/
  markWhole : Bool
  deriving DecidableEq, Repr

namespace Notation

/-- Numbers of answers and messages: as many digits as tell the number apart, always recognisable as
a float. -/
def plain : Notation := ⟨.shortest, -4, 16, true⟩

/-- Values of factors: fifteen significant digits. -/
def value : Notation := ⟨.atMost 15, -4, 15, false⟩

/-- Errors of factors: three significant digits, always with an exponent. -/
def errorBound : Notation := ⟨.exactly 3, 0, 0, false⟩

/-- The digits chosen, most significant first, and the exponent of the first. -/
def choose (choice : DigitChoice) (x : Binary) : List Char × Int :=
  match choice with
  | .shortest => lead x.shortest
  | .atMost n => lead ((x.rounded n).stripZeros n)
  | .exactly n =>
    let d := x.rounded n
    let digits := Nat.toDigits 10 d.digits
    let padded := List.replicate (n - digits.length) '0' ++ digits
    (padded, if d.digits = 0 then 0 else d.exponent + padded.length - 1)
where
  lead (d : Decimal) : List Char × Int :=
    let digits := Nat.toDigits 10 d.digits
    (digits, if d.digits = 0 then 0 else d.exponent + digits.length - 1)

def positional (markWhole : Bool) (digits : List Char) (exponent : Int) : List Char :=
  if exponent < 0 then '0' :: '.' :: List.replicate (-exponent - 1).toNat '0' ++ digits
  else
    let whole := exponent.toNat + 1
    if digits.length ≤ whole then
      digits ++ List.replicate (whole - digits.length) '0' ++ (if markWhole then ['.', '0'] else [])
    else digits.take whole ++ '.' :: digits.drop whole

def scientific (digits : List Char) (exponent : Int) : List Char :=
  let mantissa := match digits with
    | d :: [] => [d]
    | d :: rest => d :: '.' :: rest
    | [] => []
  let size := Nat.toDigits 10 exponent.natAbs
  let padded := if size.length < 2 then '0' :: size else size
  mantissa ++ 'e' :: (if exponent < 0 then '-' else '+') :: padded

/-- A finite number without its sign. -/
def magnitude (style : Notation) (x : Binary) : List Char :=
  let (digits, exponent) := choose style.digits x
  if style.positionalFrom ≤ exponent ∧ exponent < style.positionalBelow then
    positional style.markWhole digits exponent
  else scientific digits exponent

end Notation

/-- Writes a number. A negative sign is written for zero too, and never for a NaN. -/
def Notation.write (style : Notation) (x : Float) : String :=
  if x.isNaN then "nan"
  else
    let sign := if x.toBits.toNat >>> 63 = 1 then ['-'] else []
    let magnitude := if x.isInf then ['i', 'n', 'f'] else style.magnitude (Binary.ofBits x.toBits)
    String.ofList (sign ++ magnitude)

end Metrology
