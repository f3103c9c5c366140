import Metrology.Proofs.Dimension.Reading
import Metrology.Proofs.Session.Readability
import Metrology.Session.Base

/-!
# Products of SI base units

A vector of exponents stands for a product of SI base units, one for each axis with an exponent
other than zero. Where the exponents are in range the product is a unit of that dimension, and so is
what its symbol is read as; otherwise there is none.
-/
namespace Metrology

namespace Catalogue

/-- The symbol of the SI base unit of an axis names a unit of this axis. -/
theorem dimensionIn_siSymbol :
    ∀ a ∈ Axis.all, dimensionIn units a.siSymbol = some (.ofAxis a) := by
  decide +kernel

end Catalogue

theorem Axis.exponent_ofAxis (a b : Axis) :
    (Dimension.ofAxis a).exponent b = if a = b then 1 else 0 := by
  cases a <;> cases b <;> rfl

theorem Dimension.ofAxis_injective : Function.Injective Dimension.ofAxis := by
  intro a b same
  have exponent := congrArg (fun d => Dimension.exponent d a) same
  simp only [Axis.exponent_ofAxis, if_true] at exponent
  split at exponent
  next own => exact own.symm
  next => cases exponent

theorem Dimension.baseAxis?_ofAxis (a : Axis) : (Dimension.ofAxis a).baseAxis? = some a := by
  cases a <;> decide

/-- Exponents are in range as a dimension if each of them is. -/
theorem Exponents.inRange_toDimension_iff {v : Exponents} (distinct : v.Distinct) :
    v.toDimension.InRange ↔ ∀ row ∈ v, row.2.natAbs ≤ maxExponent := by
  constructor
  · intro range row mem
    have own := range row.1 row.1.mem_all
    rwa [exponent_toDimension, exponent, distinct.exponent?_eq_some_iff.mpr mem] at own
  · intro range a _
    rw [exponent_toDimension, exponent]
    cases known : v.exponent? a with
    | none => simp
    | some n => exact range _ (mem_of_exponent? known)

variable {K : Type} [Scalar K] {lex : Lexicon K} {a : Axis} {v : Exponents}

namespace Lexicon

/-- The term is the SI base unit of the axis, with the prefix that it has there. -/
structure IsBase (lex : Lexicon K) (a : Axis) (si : Term K) : Prop where
  listed : lex.contains a.plainSymbol = true
  read : lex.siTerm a = .ok si
  sound : si.Sound lex.Names
  exponent : si.exponent = 1
  dimension : si.unit.dimension = .ofAxis a

theorem Tabled.exists_isBase (tabled : lex.Tabled) (listed : lex.contains a.plainSymbol = true) :
    ∃ si, lex.IsBase a si := by
  obtain ⟨si, read⟩ := tabled.siTerm_isOk listed
  obtain ⟨sound, exponent⟩ := tabled.indexed.siTerm_eq_ok read
  obtain ⟨parsed, spelled, made⟩ := bind_eq_ok.mp read
  rw [parseExpression_siSymbol] at spelled
  obtain rfl := Except.ok.inj spelled
  exact ⟨si, listed, read, sound, exponent, tabled.dimension_of_term (fun _ isRow => isRow) made
    (Catalogue.dimensionIn_siSymbol a a.mem_all)⟩

/-- The product of SI base units with these exponents. -/
def baseProduct (lex : Lexicon K) (v : Exponents) : Except Error (Compound K) := do
  let ts ← (v.filter fun row => row.2 ≠ 0).mapM fun row => do
    (← lex.siTerm row.1).withExponent row.2
  Compound.ofTerms ts

/-- The terms of the product. -/
def baseTerms (base : Axis → Term K) (v : Exponents) : List (Term K) :=
  (v.filter fun row => row.2 ≠ 0).map fun row => ⟨(base row.1).unit, (base row.1).scaling, row.2⟩

section
variable {base : Axis → Term K} (bases : ∀ a, lex.IsBase a (base a))
include bases

theorem sound_baseTerms (tabled : lex.Tabled) (distinct : v.Distinct)
    (range : ∀ row ∈ v, row.2.natAbs ≤ maxExponent) :
    (⟨baseTerms base v⟩ : Compound K).Sound lex.Names := by
  refine ⟨fun t mem => ?_, List.pairwise_map.mpr ?_⟩
  · obtain ⟨row, shown, rfl⟩ := List.mem_map.mp mem
    obtain ⟨listed, nonzero⟩ := List.mem_filter.mp shown
    have own := (bases row.1).sound
    refine ⟨⟨own.base, by simpa using nonzero, range row listed, own.accepted⟩, ?_⟩
    rw [Bool.eq_false_iff]
    intro scalar
    have none := tabled.dimensionless_of_isScalar own.base.1 scalar
    rw [(bases row.1).dimension] at none
    have one := congrArg (fun d => Dimension.exponent d row.1) none
    simp [Axis.exponent_ofAxis] at one
  · have apart : v.Pairwise fun row row' => row.1 ≠ row'.1 := List.pairwise_map.mp distinct
    refine (apart.filter _).imp fun {row row'} other => Bool.eq_false_iff.mpr fun alike => other ?_
    have same := lex.identifiesUnits _ _ (bases row.1).sound.base (bases row'.1).sound.base alike
    have dimensions := congrArg NamedUnit.dimension same
    rw [(bases row.1).dimension, (bases row'.1).dimension] at dimensions
    exact Dimension.ofAxis_injective dimensions

/-- The base units with their exponents have the dimension that these stand for. -/
theorem total_baseTerms (distinct : v.Distinct) :
    (⟨baseTerms base v⟩ : Compound K).total = v.toDimension := by
  refine Dimension.ext_exponent fun a => ?_
  rw [Compound.exponent_total, Exponents.exponent_toDimension]
  induction v with
  | nil => rfl
  | cons row rest ih =>
    obtain ⟨missing, tail⟩ := List.nodup_cons.mp distinct
    have others := ih tail
    have own : (base row.1).unit.dimension.exponent a = if row.1 = a then 1 else 0 := by
      rw [(bases row.1).dimension, Axis.exponent_ofAxis]
    have absent : row.1 = a → Exponents.exponent rest a = 0 := by
      rintro rfl
      rw [Exponents.exponent, Exponents.exponent?_eq_none missing]
      rfl
    have split : Compound.tally (fun u => u.dimension.exponent a) (baseTerms base (row :: rest)) =
        (if row.1 = a then row.2 else 0) +
          Compound.tally (fun u => u.dimension.exponent a) (baseTerms base rest) := by
      by_cases zero : row.2 = 0
      · simp [baseTerms, zero]
      · simp only [baseTerms, List.filter_cons, zero, ne_eq, not_false_eq_true, decide_true,
          if_true, List.map_cons, Compound.tally_cons, own]
        split <;> simp
    rw [split, others, Exponents.exponent_cons]
    split
    next here => rw [absent here, Int.add_zero]
    next => rw [Int.zero_add]

/-- The product is there if the exponents are in range. -/
theorem baseProduct_eq_ok_iff (tabled : lex.Tabled) (distinct : v.Distinct) {u : Compound K} :
    lex.baseProduct v = .ok u ↔ v.toDimension.InRange ∧ u = ⟨baseTerms base v⟩ := by
  have factor {row : Axis × Int} {t : Term K} :
      (do (← lex.siTerm row.1).withExponent row.2) = .ok t ↔
        t = ⟨(base row.1).unit, (base row.1).scaling, row.2⟩ ∧ row.2 ≠ 0 ∧
          row.2.natAbs ≤ maxExponent := by
    rw [(bases row.1).read]
    refine (Term.make_eq_ok (u := (base row.1).unit)).trans ?_
    exact and_congr_right fun _ => and_congr_right fun _ =>
      and_iff_left (bases row.1).sound.accepted
  rw [Exponents.inRange_toDimension_iff distinct]
  constructor
  · intro made
    obtain ⟨ts, all, product⟩ := bind_eq_ok.mp made
    obtain rfl : ts = baseTerms base v := eq_map_of_mapM (fun _ _ own => (factor.mp own).1) all
    have range : ∀ row ∈ v, row.2.natAbs ≤ maxExponent := by
      intro row listed
      by_cases zero : row.2 = 0
      · simp [zero]
      · have shown : row ∈ v.filter fun row => row.2 ≠ 0 :=
          List.mem_filter.mpr ⟨listed, decide_eq_true zero⟩
        obtain ⟨row', _, own⟩ := exists_of_mem_mapM all (List.mem_map_of_mem shown)
        obtain ⟨same, _, small⟩ := factor.mp own
        have exponent : row.2 = row'.2 := congrArg Term.exponent same
        exact exponent ▸ small
    have sound := sound_baseTerms bases tabled distinct range
    exact ⟨range, Except.ok.inj (product.symm.trans sound.ofTerms_terms)⟩
  · rintro ⟨range, rfl⟩
    refine bind_eq_ok.mpr ⟨baseTerms base v, mapM_eq_ok.mpr ?_,
      (sound_baseTerms bases tabled distinct range).ofTerms_terms⟩
    refine List.forall₂_map_right_iff.mpr (List.forall₂_same.mpr fun row shown => ?_)
    obtain ⟨listed, nonzero⟩ := List.mem_filter.mp shown
    exact factor.mpr ⟨rfl, by simpa using nonzero, range row listed⟩

/-- The product has that dimension, and so has what its symbol is read as. -/
theorem dimension_of_baseProduct (tabled : lex.Tabled) (distinct : v.Distinct) {u : Compound K}
    (made : lex.baseProduct v = .ok u) : u.dimension = .ok v.toDimension ∧
      ∀ script, ∃ w, lex.parse (u.write script) = .ok w ∧ w.dimension = .ok v.toDimension := by
  obtain ⟨inRange, rfl⟩ := (baseProduct_eq_ok_iff bases tabled distinct).mp made
  have range := (Exponents.inRange_toDimension_iff distinct).mp inRange
  have sound := sound_baseTerms bases tabled distinct range
  have total := total_baseTerms bases distinct
  have own : ∀ t ∈ baseTerms base v, ∃ d, t.dimension = .ok d := by
    intro t mem
    obtain ⟨row, shown, rfl⟩ := List.mem_map.mp mem
    refine ⟨_, Dimension.checked_eq_ok_iff.mpr ⟨rfl, fun a _ => ?_⟩⟩
    have listed := (List.mem_filter.mp shown).1
    rw [Dimension.exponent_pow, (bases row.1).dimension, Axis.exponent_ofAxis]
    split
    next => simpa using range row listed
    next => simp
  refine ⟨Compound.dimension_eq_ok_iff.mpr ⟨own, total, inRange⟩, fun script => ?_⟩
  refine ⟨_, tabled.parse_write script sound, Compound.dimension_eq_ok_iff.mpr ⟨fun t mem => ?_,
    (Compound.total_reordered sound).trans total, inRange⟩⟩
  exact own t ((Compound.mem_reordered sound).mp mem)

end

end Lexicon

end Metrology
