import Metrology.Dimension.Code
import Metrology.Prefix
import Metrology.Scalar
import Metrology.Unit.System

/-!
# Named units

A named unit such as the metre or the newton: its symbols, its dimension, the prefixes it takes, the
systems it belongs to and, where it abbreviates a compound unit, the expansion it stands for.
-/
namespace Metrology

structure NamedUnit (K : Type) where
  name : String
  asciiSymbol : String
  unicodeSymbol : String
  /-- a further symbol, which takes no prefix -/
  alternateSymbol : Option String
  dimension : Dimension
  group : PrefixGroup
  /-- without repeats, in the order of `MeasurementSystem.all` -/
  systems : List MeasurementSystem
  expansion : Option String
  /-- How many of the expansion make one of the unit. -/
  expansionMultiplier : K
  quantityType : Option String
  deriving DecidableEq, Repr

/-- A unit as it is declared: the dimension is a code, an empty Unicode symbol stands for the ASCII
one. -/
structure UnitDeclaration (K : Type) where
  name : String
  asciiSymbol : String
  dimension : String
  unicodeSymbol : String := ""
  alternateSymbol : Option String := none
  group : PrefixGroup := 0
  systems : List MeasurementSystem := []
  expansion : Option String := none
  expansionMultiplier : K
  quantityType : Option String := none

namespace NamedUnit

variable {K : Type} [Scalar K]

def declare (d : UnitDeclaration K) : Except Error (NamedUnit K) := do
  let dimension ← Dimension.ofCode d.dimension
  if Scalar.isNotPositive d.expansionMultiplier then .error (.expansionMultiplier d.name)
  else return {
    name := d.name
    asciiSymbol := d.asciiSymbol
    unicodeSymbol := if d.unicodeSymbol.isEmpty then d.asciiSymbol else d.unicodeSymbol
    alternateSymbol := d.alternateSymbol
    dimension := dimension
    group := d.group
    systems := MeasurementSystem.all.filter fun s => d.systems.contains s
    expansion := d.expansion
    expansionMultiplier := d.expansionMultiplier
    quantityType := d.quantityType }

/-- The distinct symbols that the unit answers to, the ASCII one first. -/
def symbols (u : NamedUnit K) : List String :=
  let own :=
    if u.unicodeSymbol = u.asciiSymbol then [u.asciiSymbol] else [u.asciiSymbol, u.unicodeSymbol]
  match u.alternateSymbol with
  | none => own
  | some s => if s ∈ own then own else own ++ [s]

def isExpandable (u : NamedUnit K) : Bool := u.expansion.isSome

/-- The scalar is the unit without a symbol. -/
def isScalar (u : NamedUnit K) : Bool := u.asciiSymbol.isEmpty

def isSI (u : NamedUnit K) : Bool := u.systems.contains .si

def accepts (u : NamedUnit K) (p : Prefix K) : Bool := u.group.meets p.group

/-- Whether two declarations say the same of a unit. -/
def same (u v : NamedUnit K) : Bool :=
  u.name = v.name && u.asciiSymbol = v.asciiSymbol && u.dimension = v.dimension
    && u.unicodeSymbol = v.unicodeSymbol && u.alternateSymbol = v.alternateSymbol
    && u.group = v.group && u.systems = v.systems && u.expansion = v.expansion
    && Scalar.same u.expansionMultiplier v.expansionMultiplier
    && u.quantityType = v.quantityType

/-- The unit of pure numbers, for when none is registered. -/
def scalar : NamedUnit K where
  name := "scalar"
  asciiSymbol := ""
  unicodeSymbol := ""
  alternateSymbol := none
  dimension := .dimensionless
  group := 0
  systems := []
  expansion := none
  expansionMultiplier := Scalar.one
  quantityType := some "dimensionless"

end NamedUnit

end Metrology
