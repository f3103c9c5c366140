import Metrology.Scalar
import Metrology.Text.Blank

/-!
# Documents

The values that requests and responses are made of, and the reading of numbers that come as text.
-/
namespace Metrology

inductive Document where
  | null
  | truth (b : Bool)
  | number (x : Float)
  | integer (n : Int)
  | text (s : String)
  | list (items : List Document)
  | record (fields : List (String × Document))

namespace Document

def field? (doc : Document) (name : String) : Option Document :=
  match doc with
  | record fields => List.lookup name fields
  | _ => none

/-- Numbers that are not finite cannot be sent. -/
def ofFloat (x : Float) : Document := if x.isFinite then number x else null

def ofText? : Option String → Document
  | some s => text s
  | none => null

end Document

namespace Text

/-- White space that may stand around a number. -/
def isMargin (c : Char) : Bool := isBlank c && !(0x1c ≤ c.toNat && c.toNat ≤ 0x1f)

def trimMargin (cs : List Char) : List Char :=
  ((cs.dropWhile isMargin).reverse.dropWhile isMargin).reverse

/-- Underscores between the characters of a number, none at an end and no two together. -/
def dropUnderscores? (cs : List Char) : Option (List Char) :=
  let doubled := (cs.zip (cs.drop 1)).any fun p => p.1 = '_' && p.2 = '_'
  if !cs.contains '_' || cs.head? = some '_' || cs.getLast? = some '_' || doubled then none
  else some (cs.filter (· ≠ '_'))

def digitsToNat (cs : List Char) : Nat := cs.foldl (fun n c => 10 * n + (c.toNat - '0'.toNat)) 0

def takeSign (cs : List Char) : Bool × List Char :=
  match cs with
  | '-' :: rest => (true, rest)
  | '+' :: rest => (false, rest)
  | _ => (false, cs)

/-- The exponent at the end of a number, 0 if there is none. -/
def readTenPower? (cs : List Char) : Option Int :=
  match cs with
  | [] => some 0
  | c :: rest =>
    let (negative, digits) := takeSign rest
    if (c = 'e' || c = 'E') && !digits.isEmpty && digits.all Char.isDigit then
      let n : Int := digitsToNat digits
      some (if negative then -n else n)
    else none

/-- A number with an optional sign, point and exponent, and at least one digit before the
exponent. -/
def readDecimal? (cs : List Char) : Option (Bool × Decimal) :=
  let (negative, unsigned) := takeSign cs
  let whole := unsigned.takeWhile Char.isDigit
  let behind := unsigned.dropWhile Char.isDigit
  let (part, tail) := match behind with
    | '.' :: rest => (rest.takeWhile Char.isDigit, rest.dropWhile Char.isDigit)
    | _ => ([], behind)
  if whole.isEmpty && part.isEmpty then none
  else (readTenPower? tail).map fun power =>
    (negative, ⟨digitsToNat (whole ++ part), power - part.length⟩)

/-- The words for infinity and for what is no number, in either case. -/
def readWord? (cs : List Char) : Option Float :=
  let (negative, word) := takeSign cs
  match String.ofList (word.map Char.toLower) with
  | "inf" | "infinity" => some (if negative then -1.0 / 0.0 else 1.0 / 0.0)
  | "nan" => some (0.0 / 0.0)
  | _ => none

/-- A number in digits or as a word. -/
def readNumber? (cs : List Char) : Option Float :=
  match readDecimal? cs with
  | some (negative, d) => some (if negative then -d.toFloat else d.toFloat)
  | none => readWord? cs

/-- The number that a text spells, if it spells one: with white space around it, or with underscores
inside. -/
def readFloat? (s : String) : Option Float :=
  match readNumber? (trimMargin s.toList) with
  | some x => some x
  | none => (dropUnderscores? s.toList).bind readNumber?

end Text

end Metrology
