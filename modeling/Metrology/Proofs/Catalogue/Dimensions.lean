import Metrology.Proofs.Catalogue.Symbols

/-!
# Dimensions of the catalogue

Both units of a tabled conversion have the dimension they are tabled under, and so does the
expansion of a tabled unit. A symbol that may be read in several ways would have to do so in each.
-/
namespace Metrology.Catalogue

/-- Whether the symbol is the ASCII symbol of the row, perhaps behind a prefix that it takes. -/
def isSpelled (s : String) (r : QuantityRow × UnitRow) : Bool :=
  s = r.2.asciiSymbol || prefixRows.any fun p => r.2.accepts p &&
    match Lexicon.rest? s.toList p.symbol.toList with
    | none => false
    | some rest => r.2.asciiSymbol.toList = rest

theorem spells_of_isSpelled {s : String} {r : QuantityRow × UnitRow} (h : isSpelled s r = true) :
    ∃ p, Spells s r p := by
  have own : r.2.asciiSymbol ∈ r.2.scalable := List.mem_cons_self
  simp only [isSpelled, Bool.or_eq_true, decide_eq_true_eq, List.any_eq_true,
    Bool.and_eq_true] at h
  rcases h with rfl | ⟨p, isRow, accepts, scaled⟩
  · exact ⟨none, mem_symbols_of_scalable own⟩
  · split at scaled
    next => cases scaled
    next rest left =>
      obtain rfl := of_decide_eq_true scaled
      have symbol : p.symbol ∈ p.symbols := by
        unfold PrefixRow.symbols
        split <;> simp
      exact ⟨some p, isRow, accepts, p.symbol, symbol, _, own, Lexicon.rest?_eq_some.mp left⟩

/-- The dimension of the first of the rows whose unit the symbol spells. -/
def dimensionIn (rows : List (QuantityRow × UnitRow)) (s : String) : Option Dimension :=
  (rows.find? (isSpelled s)).bind fun r => (Dimension.ofCode r.1.dimension).toOption

/-- The dimension of terms, if all their symbols are spelled by units of the rows. -/
def dimensionOfTerms (rows : List (QuantityRow × UnitRow)) : List ParsedTerm → Option Dimension
  | [] => some .dimensionless
  | p :: ps => do
    let d ← dimensionIn rows p.symbol
    let e ← dimensionOfTerms rows ps
    return (d.pow p.exponent).mul e

/-- The dimension of a text. -/
def dimensionOfText (rows : List (QuantityRow × UnitRow)) (text : String) : Option Dimension := do
  dimensionOfTerms rows (← (parseExpression text).toOption)

/-- The rows of a quantity type, then all others. -/
def rowsAround (q : QuantityRow) : List (QuantityRow × UnitRow) :=
  (q.units.map fun u => (q, u)) ++ units

theorem mem_units_of_rowsAround {q : QuantityRow} (isQuantity : q ∈ quantities)
    {r : QuantityRow × UnitRow} (mem : r ∈ rowsAround q) : r ∈ units := by
  rcases List.mem_append.mp mem with own | other
  · rw [units, List.mem_flatMap]
    exact ⟨q, isQuantity, own⟩
  · exact other

theorem mem_conversions {d : Dimension} {row : ConversionRow} (mem : row ∈ conversions d) :
    ∃ q ∈ quantities, row ∈ q.conversions ∧ Dimension.ofCode q.dimension = .ok d := by
  obtain ⟨q, isQuantity, isRow⟩ := List.mem_flatMap.mp mem
  split at isRow
  next e coded =>
    split at isRow
    next same => exact ⟨q, isQuantity, isRow, same ▸ coded⟩
    next => cases isRow
  next => cases isRow

theorem dimension_of_conversion :
    ∀ q ∈ quantities, ∀ c ∈ q.conversions, ∀ text ∈ [c.src, c.dest],
      dimensionOfText (rowsAround q) text = (Dimension.ofCode q.dimension).toOption := by
  decide +kernel

theorem dimension_of_expansion :
    ∀ r ∈ units, ∀ e ∈ r.2.expansion,
      dimensionOfText units e = (Dimension.ofCode r.1.dimension).toOption := by
  decide +kernel

/-- A unit without a symbol is a pure number. -/
theorem dimension_of_scalar :
    ∀ r ∈ units, r.2.asciiSymbol = "" → Dimension.ofCode r.1.dimension = .ok .dimensionless := by
  decide +kernel

end Metrology.Catalogue
