import Metrology.Dimension
import Metrology.Text.Digit

/-!
# Dimension codes

A code is a run of axis letters, each followed by an optional sign and digit (`MLT-2` for force);
`1` is the code of pure numbers. Reading a code gives its exponents in order of first appearance, a
repeated axis adding up. Writing gives the canonical code: axes in order of priority, exponent 1
left out, exponent 0 left out with its axis.
-/
namespace Metrology

/-- Exponents by axis, one row per axis, in the order in which the axes appeared. -/
abbrev Exponents := List (Axis × Int)

namespace Exponents

/-- Adds `n` to the exponent of `a`; a new axis goes to the end. -/
def add (a : Axis) (n : Int) : Exponents → Exponents
  | [] => [(a, n)]
  | (b, m) :: rest => if b = a then (b, m + n) :: rest else (b, m) :: add a n rest

def addAll (v : Exponents) (rows : List (Axis × Int)) : Exponents :=
  rows.foldl (fun v row => add row.1 row.2 v) v

def exponent? (v : Exponents) (a : Axis) : Option Int := List.lookup a v

def exponent (v : Exponents) (a : Axis) : Int := (v.exponent? a).getD 0

def scale (v : Exponents) (n : Int) : Exponents := v.map fun row => (row.1, row.2 * n)

def toDimension (v : Exponents) : Dimension := Dimension.ofFn v.exponent

/-- Rows named by letters; the first letter that names no axis is reported. -/
def ofLetters (rows : List (String × Int)) : Except Error Exponents :=
  rows.mapM fun row =>
    match row.1.toList with
    | [c] => match Axis.ofLetter? c with
      | some a => .ok (a, row.2)
      | none => .error (.invalidLetter row.1)
    | _ => .error (.invalidLetter row.1)

end Exponents

namespace Dimension

/-- The code of pure numbers. -/
def unitCode : String := "1"

/-- One axis with its exponent, as written in a code. -/
def writeAxis (keepZeros : Bool) (a : Axis) (n : Int) : String :=
  if n = 0 && !keepZeros then ""
  else if n = 1 then a.letter.toString
  else a.letter.toString ++ toString n

/-- Reads a run of axes; nothing if some part of the text is no axis with its exponent. -/
def readAxes : List Char → Option (List (Axis × Int))
  | [] => some []
  | c :: '-' :: d :: rest =>
    match Axis.ofLetter? c, Text.decimalValue? d with
    | some a, some n => (readAxes rest).map ((a, -(n : Int)) :: ·)
    | _, _ => none
  | c :: d :: rest =>
    match Axis.ofLetter? c with
    | none => none
    | some a => match Text.decimalValue? d with
      | some n => (readAxes rest).map ((a, (n : Int)) :: ·)
      | none => (readAxes (d :: rest)).map ((a, 1) :: ·)
  | [c] => (Axis.ofLetter? c).map fun a => [(a, 1)]

def readCode? (code : String) : Option Exponents :=
  if code = unitCode then some []
  else if code.isEmpty then none
  else (readAxes code.toList).map (Exponents.addAll [])

def isCode (code : String) : Bool := (readCode? code).isSome

/-- The exponents that a code stands for, in order of first appearance. -/
def decompose (code : String) : Except Error Exponents :=
  match readCode? code with
  | some v => .ok v
  | none => .error (.invalidCode code)

/-- The parts of the canonical code, or the first exponent out of range. -/
def composeAxes (keepZeros : Bool) (v : Exponents) : List Axis → Except Error String
  | [] => .ok ""
  | a :: axes =>
    match v.exponent? a with
    | none => composeAxes keepZeros v axes
    | some n =>
      if maxExponent < n.natAbs then .error (.dimensionOutOfRange n a.letter)
      else (composeAxes keepZeros v axes).map (writeAxis keepZeros a n ++ ·)

/-- The canonical code of a vector of exponents. -/
def compose (v : Exponents) (keepZeros : Bool) : Except Error String :=
  (composeAxes keepZeros v Axis.all).map fun code => if code.isEmpty then unitCode else code

def normalize (code : String) : Except Error String := do
  compose (← decompose code) false

/-- The code of a power; the power 0 keeps each axis with its exponent 0. -/
def applyExponent (code : String) (n : Int) : Except Error String := do
  compose ((← decompose code).scale n) (n == 0)

/-- The code of a product. -/
def multiply (first second : String) : Except Error String := do
  let v ← decompose first
  let w ← decompose second
  compose (v.addAll w) false

/-- The code of a quotient: the divisor is inverted before the dividend is read. -/
def divide (first second : String) : Except Error String := do
  multiply first (← applyExponent second (-1))

/-- A code that names a single axis, to the first power. -/
def isBaseCode (code : String) : Except Error Bool := do
  match ← decompose code with
  | [(_, n)] => return n == 1
  | _ => return false

/-- The axis that a letter stands for. -/
def axisOfLetter (letter : String) : Except Error Axis :=
  match letter.toList with
  | [c] => match Axis.ofLetter? c with
    | some a => .ok a
    | none => .error (.invalidLetter letter)
  | _ => .error (.invalidLetter letter)

/-- The dimension that a code stands for, if it is in range. -/
def ofCode (code : String) : Except Error Dimension := do
  (← decompose code).toDimension.checked

/-- The canonical code of a dimension. -/
def code (d : Dimension) : String :=
  let text := String.join (Axis.all.map fun a => writeAxis false a (d.exponent a))
  if text.isEmpty then unitCode else text

end Dimension

end Metrology
