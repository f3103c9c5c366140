import Metrology.Action
import Metrology.Catalogue.Base
import Metrology.Catalogue.Derived
import Metrology.Catalogue.Prefixes
import Metrology.Unit.Lexicon
import Metrology.Unit.QuantityType

/-!
# Loading the catalogue

The tabled quantity types, and the registration of the tabled units of a system of measurement.
-/
namespace Metrology

namespace Catalogue

/-- Every tabled quantity type, in the order in which they are loaded. -/
def quantities : List QuantityRow := baseQuantities ++ derivedQuantities

/-- Every tabled unit with its quantity type. -/
def units : List (QuantityRow × UnitRow) := quantities.flatMap fun q => q.units.map fun u => (q, u)

/-- The tabled quantity types. Their codes are valid and their dimensions distinct, so each is
added. -/
def quantityTypes : QuantityTypes :=
  quantities.foldl (fun ts q =>
    match Dimension.ofCode q.dimension with
    | .ok d => (ts.add ⟨q.name, d⟩).toOption.getD ts
    | .error _ => ts) .empty

/-- The tabled conversions of a dimension. -/
def conversions (d : Dimension) : List ConversionRow :=
  quantities.flatMap fun q =>
    match Dimension.ofCode q.dimension with
    | .ok e => if e = d then q.conversions else []
    | .error _ => []

end Catalogue

namespace Lexicon

variable {K : Type} [Scalar K]

/-- Registers the rows that belong to a system, in order, passing over ASCII symbols that are taken.
Gives the number of units added, and stops at the first unit that cannot be added. -/
def loadRows (system : MeasurementSystem) :
    List (Catalogue.QuantityRow × Catalogue.UnitRow) → Action (Lexicon K) Nat
  | [] => pure 0
  | (quantity, row) :: rest => do
    let lex ← get
    if row.systems.contains system && !lex.units.contains row.asciiSymbol then
      set (← lex.add (← NamedUnit.declare (row.declaration quantity)))
      return (← loadRows system rest) + 1
    else loadRows system rest

/-- Registers the tabled units of a system and notes that it was loaded. -/
def loadSystem (system : MeasurementSystem) : Action (Lexicon K) Nat := do
  let added ← loadRows system Catalogue.units
  modify fun lex => { lex with
    systems := if lex.systems.contains system then lex.systems else lex.systems ++ [system] }
  return added

end Lexicon

end Metrology
