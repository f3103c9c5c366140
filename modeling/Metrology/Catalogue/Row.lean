import Metrology.Unit

/-!
# Rows of the catalogue

How quantity types, their units and their conversions are tabled. Numbers are decimals, so the
tables do not depend on the numbers that answers are computed with.
-/
namespace Metrology.Catalogue

/-- One `src` is `factor` times one `dest`. Either may carry prefixes or be a compound unit. -/
structure ConversionRow where
  src : String
  dest : String
  factor : Decimal
  deriving DecidableEq, Repr

structure UnitRow where
  name : String
  asciiSymbol : String
  systems : List MeasurementSystem
  unicodeSymbol : String
  alternateSymbol : Option String
  group : PrefixGroup
  expansion : Option String
  deriving DecidableEq, Repr

structure QuantityRow where
  name : String
  dimension : String
  units : List UnitRow
  conversions : List ConversionRow
  deriving DecidableEq, Repr

/-- A unit with one symbol, no prefixes and no expansion. -/
def unit (name asciiSymbol : String) (systems : List MeasurementSystem) : UnitRow :=
  ⟨name, asciiSymbol, systems, "", none, 0, none⟩

/-- The declaration of a tabled unit of a quantity type. -/
def UnitRow.declaration {K : Type} [Scalar K] (row : UnitRow) (quantity : QuantityRow) :
    UnitDeclaration K where
  name := row.name
  asciiSymbol := row.asciiSymbol
  dimension := quantity.dimension
  unicodeSymbol := row.unicodeSymbol
  alternateSymbol := row.alternateSymbol
  group := row.group
  systems := row.systems
  expansion := row.expansion
  expansionMultiplier := Scalar.one
  quantityType := some quantity.name

end Metrology.Catalogue
