import Metrology.Proofs.Catalogue.Dimensions
import Metrology.Proofs.Unit.Resolving
import Metrology.Proofs.Unit.Size

/-!
# Dimensions of units

A unit has a dimension if its terms together have the value of that dimension, for every way of
giving values to dimensions that turns products into products. What is read from a tabled text has
the dimension it is tabled under.
-/
namespace Metrology

variable {K : Type}

/-- The terms of the unit have the dimension together. -/
def Compound.HasDimension [Field K] (c : Compound K) (d : Dimension) : Prop :=
  ∀ χ : Dimension → K, Character χ → valueOf (fun u _ => χ u.dimension) c.terms = χ d

theorem Compound.hasDimension_of_dimension [Field K] {c : Compound K} {d : Dimension}
    (given : c.dimension = .ok d) : c.HasDimension d :=
  fun _ character => valueOf_dimension character given

namespace Lexicon

variable [Scalar K] {lex : Lexicon K}

open Catalogue (Declared Spells)

/-- A symbol stands for a unit whose row spells it, with the prefix that it is spelled with. -/
theorem Tabled.spells_of_resolve (tabled : lex.Tabled) {s : String} {u : NamedUnit K}
    {scaling : Option (Prefix K)} (resolved : lex.resolve s = .ok (u, scaling)) :
    ∃ row p, Declared u row ∧ scaling = p.map (·.toPrefix) ∧ Spells s row p := by
  rcases resolve_cases resolved with ⟨found, rfl⟩ | ⟨p, rfl, reading, accepts⟩
  · obtain ⟨row, declared, spells⟩ := tabled.spells_of_find? found
    exact ⟨row, none, declared, rfl, spells⟩
  · obtain ⟨row, q, declared, same, spells⟩ := tabled.spells_of_reading reading accepts
    exact ⟨row, some q, declared, congrArg some same, spells⟩

/-- Registered units without a symbol are pure numbers. -/
theorem Tabled.dimensionless_of_isScalar (tabled : lex.Tabled) {u : NamedUnit K}
    (found : lex.find? u.asciiSymbol = some u) (scalar : u.isScalar = true) :
    u.dimension = .dimensionless := by
  obtain ⟨_, row, declared⟩ := tabled.declared _ u found
  have fields := declared.fields
  have empty : row.2.asciiSymbol = "" := by
    rw [← fields.1]
    simpa [NamedUnit.isScalar] using scalar
  have coded := Catalogue.dimension_of_scalar row declared.1 empty
  rw [fields.2.2.2.2.2.2] at coded
  exact Except.ok.inj coded

/-- Terms of one kind have the same unit and the same prefix. -/
theorem Tabled.identifies (tabled : lex.Tabled) : Identifies lex.Names := by
  have symbol : ∀ p ∈ lex.prefixes.all, ∃ row ∈ Catalogue.prefixRows,
      p = row.toPrefix ∧ p.asciiSymbol ∈ row.symbols ∧ p.asciiSymbol ≠ "" := by
    intro p mem
    rw [tabled.prefixes] at mem
    obtain ⟨row, isRow, rfl⟩ := Catalogue.exists_row_of_mem mem
    have own : row.symbol ∈ row.symbols := by
      unfold Catalogue.PrefixRow.symbols
      split <;> simp
    obtain ⟨_, _, c, r, begins, _⟩ := Catalogue.unambiguous.prefix_readable row isRow _ own
    refine ⟨row, isRow, rfl, own, fun empty => ?_⟩
    have same : row.symbol = "" := empty
    simp [same] at begins
  intro t u names names' alike
  obtain ⟨unit, scaling, n⟩ := t
  obtain ⟨unit', scaling', n'⟩ := u
  simp only [Term.sameBase, Term.scalingSymbol, Bool.and_eq_true, decide_eq_true_eq] at alike
  obtain ⟨ascii, prefixes⟩ := alike
  have prefixes := of_decide_eq_true prefixes
  have units : unit = unit' := by
    have found := names.1
    simp only at found
    rw [ascii, names'.1] at found
    exact (Option.some.inj found).symm
  refine ⟨units, ?_⟩
  cases scaling with
  | none =>
    cases scaling' with
    | none => rfl
    | some p =>
      obtain ⟨_, _, _, _, shown⟩ := symbol p (names'.2 p rfl)
      exact absurd prefixes.symm shown
  | some p =>
    obtain ⟨row, isRow, rfl, own, shown⟩ := symbol p (names.2 p rfl)
    cases scaling' with
    | none => exact absurd prefixes shown
    | some q =>
      obtain ⟨row', isRow', rfl, own', _⟩ := symbol q (names'.2 q rfl)
      have same : row.symbol = row'.symbol := prefixes
      simp only [Catalogue.PrefixRow.toPrefix, same] at own own'
      rw [Catalogue.eq_of_nodup_flatMap Catalogue.unambiguous.nodup_prefixSymbols isRow isRow' own own']

theorem Tabled.term_eq_ok (tabled : lex.Tabled) {p : ParsedTerm} {t : Term K}
    (made : lex.term p = .ok t) :
    t.Sound lex.Names ∧ t.exponent = p.exponent ∧
      ∃ row q, Declared t.unit row ∧ Spells p.symbol row q := by
  obtain ⟨⟨u, scaling⟩, resolved, made⟩ := bind_eq_ok.mp made
  have sound := Term.sound_of_make (tabled.indexed.names_of_resolve resolved) made
  obtain ⟨rfl, _⟩ := Term.make_eq_ok.mp made
  obtain ⟨row, q, declared, _, spells⟩ := tabled.spells_of_resolve resolved
  exact ⟨sound, rfl, row, q, declared, spells⟩

variable {rows : List (Catalogue.QuantityRow × Catalogue.UnitRow)}

/-- The unit of a term has the dimension that the rows of its symbol tell. -/
theorem Tabled.dimension_of_term (tabled : lex.Tabled) (listed : ∀ r ∈ rows, r ∈ Catalogue.units)
    {p : ParsedTerm} {t : Term K} (made : lex.term p = .ok t) {d : Dimension}
    (measured : Catalogue.dimensionIn rows p.symbol = some d) : t.unit.dimension = d := by
  obtain ⟨_, _, row, q, declared, spells⟩ := tabled.term_eq_ok made
  obtain ⟨r, found, coded⟩ := Option.bind_eq_some_iff.mp measured
  obtain ⟨q', spells'⟩ := Catalogue.spells_of_isSpelled (List.find?_some found)
  have isRow := listed r (List.mem_of_find?_eq_some found)
  obtain ⟨rfl, _⟩ := Catalogue.spells_unique declared.1 isRow spells spells'
  rw [declared.fields.2.2.2.2.2.2] at coded
  exact Option.some.inj coded

variable [Field K] {χ : Dimension → K}

/-- The terms read from parsed ones have the dimension that the rows of their symbols tell. -/
theorem Tabled.valueOf_dimensionOfTerms (tabled : lex.Tabled) (character : Character χ)
    (listed : ∀ r ∈ rows, r ∈ Catalogue.units) {ps : List ParsedTerm} {ts : List (Term K)}
    (made : ps.mapM lex.term = .ok ts) {d : Dimension}
    (measured : Catalogue.dimensionOfTerms rows ps = some d) :
    Compound.valueOf (fun u _ => χ u.dimension) ts = χ d := by
  induction ps generalizing ts d with
  | nil =>
    obtain rfl := Except.ok.inj made
    obtain rfl := Option.some.inj measured
    simp [character.one]
  | cons p ps ih =>
    obtain _ | ⟨head, tail⟩ := mapM_eq_ok.mp made
    simp only [Catalogue.dimensionOfTerms, Option.bind_eq_bind, Option.bind_eq_some_iff,
      Option.pure_def, Option.some.injEq] at measured
    obtain ⟨e, own, f, rest, rfl⟩ := measured
    rw [Compound.valueOf_cons, ih (mapM_eq_ok.mpr tail) rest, tabled.dimension_of_term listed head own,
      (tabled.term_eq_ok head).2.1, character.mul, character.pow]

/-- What is read from a text has the dimension that the rows of its symbols tell. -/
theorem Tabled.hasDimension_of_text (tabled : lex.Tabled)
    (listed : ∀ r ∈ rows, r ∈ Catalogue.units) {text : String} {d : Dimension} {c : Compound K}
    (measured : Catalogue.dimensionOfText rows text = some d) (made : lex.parse text = .ok c) :
    c.HasDimension d := by
  intro χ character
  obtain ⟨ps, parsed, rest⟩ := bind_eq_ok.mp made
  obtain ⟨ts, all, product⟩ := bind_eq_ok.mp rest
  rw [Catalogue.dimensionOfText, parsed] at measured
  have terms := tabled.valueOf_dimensionOfTerms character listed all measured
  rw [← terms]
  have sound : ∀ t ∈ ts, t.Sound lex.Names := by
    intro t mem
    obtain ⟨p, _, same⟩ := exists_of_mem_mapM all mem
    exact (tabled.term_eq_ok same).1
  refine Compound.valueOf_ofTerms tabled.identifies (fun u _ _ => character.ne_zero _) sound
    (fun t mem scalar => ?_) product
  rw [tabled.dimensionless_of_isScalar (sound t mem).base.1 scalar, character.one]

end Lexicon

end Metrology
