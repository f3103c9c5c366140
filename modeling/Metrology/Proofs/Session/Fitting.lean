import Mathlib.Algebra.Order.Field.Basic
import Mathlib.Tactic.FieldSimp
import Mathlib.Tactic.LinearCombination
import Metrology.Proofs.Graph.Store
import Metrology.Proofs.Unit.Small

/-!
# Sizes that fit

Sizes of the registered units fit a store of conversions if every registered edge and every
expansion holds for them. Along with the units they give a size to every text that can be parsed and
to every dimension, that of the matching product of SI base units.
-/
namespace Metrology

variable {K : Type} [Field K] [Scalar K]

/-- No prefix of the table multiplies by zero. -/
theorem Catalogue.multiplier_ne_zero [LinearOrder K] [IsStrictOrderedRing K] [Scalar.Exact K]
    {p : Prefix K} (mem : p ∈ (prefixes : PrefixTable K).all) : p.multiplier ≠ 0 :=
  good_multiplier .exact mem

namespace Lexicon

/-- The conversion holds for the sizes, if its ends are units of the lexicon. -/
def Balances (lex : Lexicon K) (size : NamedUnit K → K) (c : Conversion K) : Prop :=
  ∀ u v, lex.parse c.src = .ok u → lex.parse c.dest = .ok v →
    u.size size = c.factor.value * v.size size

/-- The size of what a text means. -/
def textSize (lex : Lexicon K) (size : NamedUnit K → K) (text : String) : K :=
  match lex.parse text with
  | .ok c => c.size size
  | .error _ => 1

/-- The size of the SI base unit of an axis. -/
def axisSize (lex : Lexicon K) (size : NamedUnit K → K) (a : Axis) : K :=
  match lex.siTerm a with
  | .ok t => t.size size
  | .error _ => 1

/-- The size of the product of SI base units with a dimension. -/
def baseSize (lex : Lexicon K) (size : NamedUnit K → K) (d : Dimension) : K :=
  (Axis.all.map fun a => lex.axisSize size a ^ d.exponent a).prod

variable {lex : Lexicon K} {size : NamedUnit K → K}

theorem textSize_eq {text : String} {c : Compound K} (read : lex.parse text = .ok c) :
    lex.textSize size text = c.size size := by
  rw [textSize, read]

/-- It is enough to compare the sizes of the texts. -/
theorem balances_of_textSize {c : Conversion K}
    (equal : lex.textSize size c.src = c.factor.value * lex.textSize size c.dest) :
    lex.Balances size c := by
  intro u v src dest
  rw [← textSize_eq src, ← textSize_eq dest, equal]

theorem Tabled.textSize_write (tabled : lex.Tabled) {c : Compound K} (sound : c.Sound lex.Names) :
    lex.textSize size (c.write .ascii) = c.size size := by
  rw [textSize_eq (tabled.parse_write .ascii sound), Compound.size_eq,
    Compound.valueOf_reordered sound, Compound.size_eq]

/-- Units that are written alike have one size. -/
theorem Tabled.size_eq_of_write_eq (tabled : lex.Tabled) {c d : Compound K}
    (sound : c.Sound lex.Names) (sound' : d.Sound lex.Names)
    (same : c.write .ascii = d.write .ascii) : c.size size = d.size size := by
  rw [← tabled.textSize_write sound, same, tabled.textSize_write sound']

theorem parseExpression_siSymbol (a : Axis) :
    parseExpression a.siSymbol = .ok [⟨a.siSymbol, 1, 0⟩] := by
  cases a <;> decide

omit [Field K] in
/-- The SI base unit of an axis is a unit of the lexicon, to the first power. -/
theorem Indexed.siTerm_eq_ok (indexed : lex.Indexed) {a : Axis} {t : Term K}
    (given : lex.siTerm a = .ok t) : t.Sound lex.Names ∧ t.exponent = 1 := by
  obtain ⟨parsed, read, made⟩ := bind_eq_ok.mp given
  rw [parseExpression_siSymbol] at read
  obtain rfl := Except.ok.inj read
  obtain ⟨⟨u, scaling⟩, resolved, made⟩ := bind_eq_ok.mp made
  have sound := Term.sound_of_make (indexed.names_of_resolve resolved) made
  obtain ⟨rfl, _⟩ := Term.make_eq_ok.mp made
  exact ⟨sound, rfl⟩

omit [Field K] in
theorem Tabled.siTerm_eq_ok (tabled : lex.Tabled) {a : Axis} {t : Term K}
    (given : lex.siTerm a = .ok t) : t.Sound lex.Names ∧ t.exponent = 1 :=
  tabled.indexed.siTerm_eq_ok given

/-- A single axis has the size of its SI base unit. -/
theorem baseSize_ofAxis (a : Axis) :
    lex.baseSize size (.ofAxis a) = lex.axisSize size a := by
  cases a <;> simp [baseSize, Axis.all, Dimension.ofAxis]

variable [LinearOrder K]

/-- Positive sizes of the registered units. The scalar has the size 1. -/
structure Assigns (lex : Lexicon K) (size : NamedUnit K → K) : Prop where
  positive : ∀ s u, lex.find? s = some u → 0 < size u
  scalar : ∀ s u, lex.find? s = some u → u.isScalar = true → size u = 1

/-- Sizes for which every registered conversion and every expansion holds. -/
structure Fits (lex : Lexicon K) (store : EdgeStore K) (size : NamedUnit K → K) : Prop
    extends lex.Assigns size where
  edges : ∀ d es, EdgeStore.current lex store d = .ok es → ∀ row ∈ es.rows, lex.Balances size row.2
  expansions : ∀ s u e c, lex.find? s = some u → u.expansion = some e → lex.parse e = .ok c →
    size u = u.expansionMultiplier * c.size size

variable [IsStrictOrderedRing K] [Scalar.Exact K]

theorem Tabled.scalingMultiplier_ne_zero (tabled : lex.Tabled) {t : Term K}
    (names : lex.Names t.unit t.scaling) : t.scalingMultiplier ≠ 0 :=
  Lexicon.scalingMultiplier_ne_zero (tabled.prefixes ▸ fun _ mem => Catalogue.multiplier_ne_zero mem)
    names

section Assigning

variable (tabled : lex.Tabled) (assigns : lex.Assigns size)
include tabled assigns

theorem Assigns.scaledSize_ne_zero (u : NamedUnit K) (p : Option (Prefix K)) (names : lex.Names u p) :
    scaledSize size u p ≠ 0 :=
  mul_ne_zero (tabled.scalingMultiplier_ne_zero (t := ⟨u, p, 1⟩) names)
    (assigns.positive _ u names.1).ne'

theorem Assigns.size_ne_zero {c : Compound K} (sound : c.Sound lex.Names) : c.size size ≠ 0 := by
  rw [Compound.size_eq]
  exact Compound.valueOf_ne_zero (assigns.scaledSize_ne_zero tabled) fun t mem => (sound.terms t mem).1

theorem Assigns.termSize_ne_zero {t : Term K} (sound : t.Sound lex.Names) : t.size size ≠ 0 :=
  zpow_ne_zero _ (assigns.scaledSize_ne_zero tabled _ _ sound.base)

omit [IsStrictOrderedRing K] in
/-- The node that stands for a unit has the size of the unit. -/
theorem Assigns.textSize_asciiSymbol {u : NamedUnit K} (found : lex.find? u.asciiSymbol = some u) :
    lex.textSize size u.asciiSymbol = size u := by
  cases scalar : u.isScalar with
  | false =>
    rw [textSize_eq (tabled.parse_asciiSymbol found scalar), Compound.size_eq]
    simp [scaledSize_none]
  | true =>
    have empty : u.asciiSymbol = "" := by simpa [NamedUnit.isScalar] using scalar
    rw [assigns.scalar _ u found scalar, empty, textSize_eq (parse_empty lex)]
    rfl

/-- A unit is as large as its prefixes make the unit without them. -/
theorem Assigns.size_withoutPrefixes {c plain : Compound K} {m : K} (sound : c.Sound lex.Names)
    (scaled : c.multiplier = .ok m) (made : c.withoutPrefixes = .ok plain) :
    c.size size = m * plain.size size := by
  have bare := Compound.valueOf_withoutPrefixes tabled.identifies (assigns.scaledSize_ne_zero tabled)
    (fun _ _ names => names.withoutPrefix) sound made
  simp only [scaledSize_none] at bare
  rw [Compound.size_of_multiplier
    (fun t mem => tabled.scalingMultiplier_ne_zero (sound.terms t mem).1.base) scaled, ← bare]
  rfl

theorem Assigns.multiplier_ne_zero {c plain : Compound K} {m : K} (sound : c.Sound lex.Names)
    (scaled : c.multiplier = .ok m) (made : c.withoutPrefixes = .ok plain) : m ≠ 0 := by
  intro zero
  have size := assigns.size_withoutPrefixes tabled sound scaled made
  rw [zero, zero_mul] at size
  exact assigns.size_ne_zero tabled sound size

theorem Assigns.axisSize_ne_zero (a : Axis) : lex.axisSize size a ≠ 0 := by
  unfold axisSize
  split
  next t given => exact assigns.termSize_ne_zero tabled (tabled.siTerm_eq_ok given).1
  next => exact one_ne_zero

theorem Assigns.character_baseSize : Character (lex.baseSize size) := by
  have product : ∀ f g : Axis → K, ∀ as : List Axis,
      (as.map fun a => f a * g a).prod = (as.map f).prod * (as.map g).prod :=
    fun f g as => List.prod_map_mul
  refine ⟨by simp [baseSize], fun d e => ?_, fun d n => ?_⟩
  · simp only [baseSize, Dimension.exponent_mul, zpow_add₀ (assigns.axisSize_ne_zero tabled _)]
    exact product _ _ _
  · simp only [baseSize, Dimension.exponent_pow, zpow_mul]
    simp [Axis.all, mul_zpow]

end Assigning

section Fitting

variable {store : EdgeStore K} (tabled : lex.Tabled)
include tabled

/-- A registered edge holds between the sizes of its ends, and its factor is not zero. -/
theorem Fits.edge (fits : lex.Fits store size) {d : Dimension} {es : Edges K}
    (registered : EdgeStore.current lex store d = .ok es) {row : EdgeKey × Conversion K}
    (mem : row ∈ es.rows) (joins : EdgeStore.Joins lex d row) :
    lex.textSize size row.2.src = row.2.factor.value * lex.textSize size row.2.dest ∧
      row.2.factor.value ≠ 0 := by
  obtain ⟨_, ⟨u, src, soundSrc, _⟩, ⟨v, dest, _⟩⟩ := joins
  have balance := fits.edges d es registered row mem u v src dest
  rw [textSize_eq src, textSize_eq dest]
  refine ⟨balance, fun zero => ?_⟩
  rw [zero, zero_mul] at balance
  exact fits.size_ne_zero tabled soundSrc balance

/-- Where a conversion holds, it holds between the units without their prefixes. -/
theorem balances_unprefixed (assigns : lex.Assigns size) {d : Dimension} {src dest : Compound K}
    {factor : Factor K} {c : Conversion K} (soundSrc : src.Sound lex.Names)
    (soundDest : dest.Sound lex.Names)
    (holds : src.size size = factor.value * dest.size size)
    (made : EdgeStore.unprefixed d src dest factor = .ok c) : lex.Balances size c := by
  refine balances_of_textSize ?_
  unfold EdgeStore.unprefixed at made
  split at made
  next =>
    obtain ⟨n, destScaled, made⟩ := bind_eq_ok.mp made
    obtain ⟨m, srcScaled, made⟩ := bind_eq_ok.mp made
    obtain ⟨q, divided, made⟩ := bind_eq_ok.mp made
    obtain ⟨u, srcBare, made⟩ := bind_eq_ok.mp made
    obtain ⟨v, destBare, made⟩ := bind_eq_ok.mp made
    obtain rfl := Except.ok.inj made
    obtain ⟨nonzero, quotient⟩ := Factor.value_of_div divided
    rw [Factor.value_exact] at nonzero
    rw [tabled.textSize_write (soundSrc.withoutPrefixes srcBare),
      tabled.textSize_write (soundDest.withoutPrefixes destBare), quotient, Factor.value_mul,
      Factor.value_exact, Factor.value_exact]
    rw [assigns.size_withoutPrefixes tabled soundSrc srcScaled srcBare,
      assigns.size_withoutPrefixes tabled soundDest destScaled destBare] at holds
    field_simp
    linear_combination holds
  next =>
    obtain rfl := Except.ok.inj made
    rw [tabled.textSize_write soundSrc, tabled.textSize_write soundDest]
    exact holds

/-- Sizes fit a store if the rows hold that edges are built from, the caller's edges and the edges
that were built before. -/
theorem fits_of_rows (assigns : lex.Assigns size)
    (rows : ∀ d, ∀ row ∈ EdgeStore.rows lex d,
      lex.Balances size ⟨d.code, row.1.1, row.1.2, row.2⟩)
    (added : ∀ d, ∀ row ∈ (store.addedIn d).rows, lex.Balances size row.2)
    (built : ∀ d es, store.edges.get? d = some es → ∀ row ∈ es.rows, lex.Balances size row.2)
    (expansions : ∀ s u e c, lex.find? s = some u → u.expansion = some e → lex.parse e = .ok c →
      size u = u.expansionMultiplier * c.size size) : lex.Fits store size := by
  refine ⟨assigns, fun d es current => ?_, expansions⟩
  rw [EdgeStore.current_eq] at current
  split at current
  next =>
    obtain rfl := Except.ok.inj current
    cases known : store.edges.get? d with
    | none => exact fun _ mem => absurd mem List.not_mem_nil
    | some es => exact built d es known
  next =>
    exact EdgeStore.forall_build (fun row mem u v c src dest made =>
      balances_unprefixed tabled assigns (tabled.sound_of_parse src) (tabled.sound_of_parse dest)
        (rows d row mem u v src dest) made) (fun row mem _ _ _ _ => added d row mem) current

end Fitting

end Lexicon

end Metrology
