import Metrology.Proofs.Catalogue.Precedence
import Metrology.Proofs.Dimension.Algebra
import Metrology.Proofs.Unit.Algebra
import Metrology.Proofs.Unit.Powers
import Metrology.Proofs.Unit.Small
import Metrology.Proofs.Unit.Total

/-!
# Dimensions and multipliers of calculated units

What is calculated with units is calculated with the codes of their dimensions, too: the dimension
of a product has the code that the codes of the factors are multiplied to, and so on for quotients,
reciprocals and powers. The same goes for multipliers and powers. Terms are told apart by their
ASCII symbols, so it goes for multipliers and products as long as no prefix without an ASCII symbol
is mistaken for the lack of one.
-/
namespace Metrology

variable {K : Type}

/-! ### Tables of prefixes -/

namespace PrefixTable

variable {t t' : PrefixTable K} {p : Prefix K}

/-- Every prefix is found under its ASCII symbol. -/
def Filed (t : PrefixTable K) : Prop := ∀ p ∈ t.all, t.find? p.asciiSymbol = some p

theorem Filed.add (filed : t.Filed) (added : t.add p = .ok t') : t'.Filed := by
  unfold PrefixTable.add at added
  split at added
  next => cases added
  next free =>
    obtain rfl := Except.ok.inj added
    intro q mem
    rw [find?, Register.get?_putAll]
    rcases List.mem_append.mp mem with old | new
    · have known := filed q old
      have apart : q.asciiSymbol ∉ p.symbols := by
        intro taken
        have clash := List.find?_eq_none.mp free _ taken
        rw [find?] at known
        simp [Register.contains, known] at clash
      rw [if_neg apart]
      exact known
    · obtain rfl := List.mem_singleton.mp new
      rw [if_pos (Prefix.mem_symbols_iff.mpr (.inl rfl))]

end PrefixTable

namespace Lexicon

variable [Scalar K]

theorem Edit.keepsFiled (edit : Edit K) :
    edit.action.Keeps (fun lex => lex.prefixes.Filed) fun _ => True := by
  cases edit with
  | units call =>
    cases call with
    | add u =>
      refine .bind .get fun lex filed => .bind (.lift fun more added => added) fun more added => ?_
      exact .set (prefixes_add added ▸ filed)
    | remove symbol => exact .modify fun lex filed => lex.prefixes_remove symbol ▸ filed
    | loadSystem system =>
      refine .bind (keeps_loadSystem_of_add system (fun filed _ added => ?_) fun _ filed => filed)
        fun _ _ => .pure trivial
      exact prefixes_add added ▸ filed
  | addPrefix p =>
    refine .bind .get fun lex filed => .bind (.lift fun more added => added) fun more added => ?_
    exact .set (filed.add added)

theorem filed_edited (edits : List (Edit K)) : (edited .empty edits).prefixes.Filed := by
  have run (lex : Lexicon K) (filed : lex.prefixes.Filed) :
      (edits.foldl Edit.after lex).prefixes.Filed := by
    induction edits generalizing lex with
    | nil => exact filed
    | cons edit rest ih => exact ih _ (edit.keepsFiled.invariant filed)
  exact run _ fun p mem => absurd mem List.not_mem_nil

theorem after_addPrefix (lex : Lexicon K) (p : Prefix K) : Edit.after lex (.addPrefix p) =
    { lex with prefixes := (lex.prefixes.add p).toOption.getD lex.prefixes } := by
  rw [Edit.after, Edit.action, Action.apply_bind, Action.apply_get]
  dsimp only
  rw [Action.apply_bind, Action.apply_lift]
  cases lex.prefixes.add p <;> rfl

/-- The table of prefixes comes about by adding them one after the other. -/
theorem edited_prefixes (edits : List (Edit K)) : edited Catalogue.prefixes edits =
    edited .empty (Catalogue.prefixRows.map (fun row => .addPrefix row.toPrefix) ++ edits) := by
  have run (rows : List Catalogue.PrefixRow) (t : PrefixTable K) :
      (rows.map fun row => Edit.addPrefix row.toPrefix).foldl Edit.after (ofPrefixes t) =
        ofPrefixes (rows.foldl (fun t row => (t.add row.toPrefix).toOption.getD t) t) := by
    induction rows generalizing t with
    | nil => rfl
    | cons row rest ih =>
      rw [List.map_cons, List.foldl_cons, List.foldl_cons, ← ih, after_addPrefix]
      rfl
  rw [edited, edited, List.foldl_append, run]
  rfl

/-- The unit was calculated from units and prefixes that are in the lexicon. -/
structure Over (lex : Lexicon K) (c : Compound K) : Prop where
  built : c.Built
  named : ∀ t ∈ c.terms, lex.Names t.unit t.scaling

theorem over_of_parse {prefixes : PrefixTable K} {edits : List (Edit K)} {text : String}
    {c : Compound K} (made : (edited prefixes edits).parse text = .ok c) :
    (edited prefixes edits).Over c where
  built := .parsed made
  named t mem :=
    (((consistent_edited prefixes edits).indexed.sound_of_parse made).terms t mem).1.base

end Lexicon

namespace Compound

variable {P Q : NamedUnit K → Option (Prefix K) → Prop} {c d e : Compound K} {n : Int}

/-- Soundness is a matter of the terms. -/
theorem Sound.rebase (sound : c.Sound P) (bases : ∀ t ∈ c.terms, Q t.unit t.scaling) :
    c.Sound Q where
  terms t mem :=
    have own := sound.terms t mem
    ⟨⟨bases t mem, own.1.nonzero, own.1.range, own.1.accepted⟩, own.2⟩
  distinct := sound.distinct

theorem Sound.eq_of_sameBase (sound : c.Sound P) {t u : Term K} (mem : t ∈ c.terms)
    (mem' : u ∈ c.terms) (same : t.sameBase u = true) : t = u :=
  List.inj_on_of_nodup_map (distinct_iff.mp sound.distinct) mem mem' (Term.sameBase_iff.mp same)

/-- No unit stands without a prefix in the one and with a prefix without an ASCII symbol in the
other. -/
def TellsPrefixes (c d : Compound K) : Prop :=
  ∀ t ∈ c.terms, ∀ u ∈ d.terms, t.unit = u.unit → t.scalingSymbol = u.scalingSymbol →
    (t.scaling = none ↔ u.scaling = none)

/-- The reciprocal is the power -1. -/
theorem inv_eq_pow (c : Compound K) : c.inv = c.pow (-1) := by
  have powers : (Term.inv : Term K → Except Error (Term K)) = fun t => t.pow (-1) :=
    funext fun t => by rw [Term.inv, Term.pow, Int.mul_neg_one]
  rw [inv, powers, Compound.pow, if_neg (by decide)]

/-! ### Dimensions -/

section Dimensions

variable {weight : NamedUnit K → Int} {lex : Lexicon K} {u v w i : Compound K}

theorem tally_append (ts us : List (Term K)) :
    tally weight (ts ++ us) = tally weight ts + tally weight us := by
  show weigh (fun u _ => weight u) (ts ++ us) = _
  exact weigh_append ts us

theorem tally_map_mul (ts : List (Term K)) :
    tally weight (ts.map fun t => ⟨t.unit, t.scaling, t.exponent * n⟩) = tally weight ts * n := by
  show weigh (fun u _ => weight u) _ = weigh (fun u _ => weight u) ts * n
  exact weigh_map_mul ts n

/-- The total dimension of a product is the product of the total dimensions. -/
theorem total_mul (sound : u.Sound lex.Names) (sound' : v.Sound lex.Names)
    (made : u.mul v = .ok w) : w.total = u.total.mul v.total :=
  Dimension.ext_exponent fun a => by
    rw [Dimension.exponent_mul, exponent_total, exponent_total, exponent_total,
      tally_ofTerms lex.identifiesUnits (sound.append sound') made, tally_append]

theorem total_pow (sound : u.Sound P) (nonzero : n ≠ 0) (made : u.pow n = .ok w) :
    w.total = u.total.pow n :=
  Dimension.ext_exponent fun a => by
    rw [Dimension.exponent_pow, exponent_total, exponent_total, sound.terms_of_pow nonzero made,
      tally_map_mul]

theorem total_inv (sound : u.Sound P) (made : u.inv = .ok i) : i.total = u.total.pow (-1) :=
  total_pow sound (by decide) (inv_eq_pow u ▸ made)

/-- The code of the dimension stands for the total dimension. -/
theorem totalOf_of_dimension {d : Dimension} (given : c.dimension = .ok d) :
    Dimension.totalOf d.code = .ok c.total := by
  obtain ⟨_, rfl, range⟩ := dimension_eq_ok_iff.mp given
  exact Dimension.totalOf_code range

theorem canonical_of_dimension {d : Dimension} (given : c.dimension = .ok d) :
    c.total.canonical = .ok d.code := by
  obtain ⟨_, rfl, range⟩ := dimension_eq_ok_iff.mp given
  exact Dimension.canonical_eq_ok.mpr ⟨range, rfl⟩

/-- What is calculated with units is calculated with the codes of their dimensions, too. -/
structure DimensionLaws (u v : Compound K) (n : Int) : Prop where
  mul : ∀ w d e f, u.mul v = .ok w → u.dimension = .ok d → v.dimension = .ok e →
    w.dimension = .ok f → Dimension.multiply d.code e.code = .ok f.code
  div : ∀ w d e f, u.div v = .ok w → u.dimension = .ok d → v.dimension = .ok e →
    w.dimension = .ok f → Dimension.divide d.code e.code = .ok f.code
  inv : ∀ w d f, u.inv = .ok w → u.dimension = .ok d → w.dimension = .ok f →
    Dimension.applyExponent d.code (-1) = .ok f.code
  pow : ∀ w d f, u.pow n = .ok w → u.dimension = .ok d → w.dimension = .ok f →
    Dimension.applyExponent d.code n = .ok f.code
  withoutPrefixes : ∀ w d f, u.withoutPrefixes = .ok w → u.dimension = .ok d →
    w.dimension = .ok f → f.code = d.code

theorem dimensionLaws (sound : u.Sound lex.Names) (sound' : v.Sound lex.Names) (nonzero : n ≠ 0) :
    DimensionLaws u v n where
  mul w d e f made isD isE isF := by
    rw [Dimension.multiply_of_total (totalOf_of_dimension isD) (totalOf_of_dimension isE),
      ← total_mul sound sound' made]
    exact canonical_of_dimension isF
  div w d e f made isD isE isF := by
    obtain ⟨i, inverse, product⟩ := bind_eq_ok.mp made
    obtain ⟨_, rfl, range⟩ := dimension_eq_ok_iff.mp isE
    have inverted : (v.total.pow (-1)).InRange := fun a mem => by simpa using range a mem
    rw [Dimension.divide_of_total (totalOf_of_dimension isD) (totalOf_of_dimension isE) inverted,
      ← total_inv sound' inverse, ← total_mul sound (sound'.inv inverse) product]
    exact canonical_of_dimension isF
  inv w d f made isD isF := by
    rw [Dimension.applyExponent_of_total (by decide) (totalOf_of_dimension isD),
      ← total_inv sound made]
    exact canonical_of_dimension isF
  pow w d f made isD isF := by
    rw [Dimension.applyExponent_of_total nonzero (totalOf_of_dimension isD),
      ← total_pow sound nonzero made]
    exact canonical_of_dimension isF
  withoutPrefixes w d f made isD isF := by
    obtain ⟨_, rfl, _⟩ := dimension_eq_ok_iff.mp isD
    obtain ⟨_, rfl, _⟩ := dimension_eq_ok_iff.mp isF
    rw [total_withoutPrefixes sound made]

end Dimensions

/-! ### Multipliers -/

section Multipliers

variable {lex : Lexicon K} {u v w : Compound K} {k l m : K} {t t' : Term K}

/-- Terms of one kind have the same prefix if they both have one or neither has. -/
theorem scaling_eq_of_sameBase (filed : lex.prefixes.Filed) (names : lex.Names t.unit t.scaling)
    (names' : lex.Names t'.unit t'.scaling) (same : t.sameBase t' = true)
    (both : t.scaling = none ↔ t'.scaling = none) : t.scaling = t'.scaling := by
  have symbols : t.scalingSymbol = t'.scalingSymbol :=
    (Prod.mk.inj (Term.sameBase_iff.mp same)).2
  unfold Term.scalingSymbol at symbols
  cases scaled : t.scaling with
  | none => rw [both.mp scaled]
  | some p =>
    cases scaled' : t'.scaling with
    | none => cases scaled.symm.trans (both.mpr scaled')
    | some q =>
      rw [scaled, scaled'] at symbols
      have found := filed p (names.2 p scaled)
      rw [show p.asciiSymbol = q.asciiSymbol from symbols, filed q (names'.2 q scaled')] at found
      exact found.symm

/-- The unit and the prefix of a term of one of the two. -/
def Occurs (u v : Compound K) (unit : NamedUnit K) (scaling : Option (Prefix K)) : Prop :=
  ∃ t ∈ u.terms ++ v.terms, t.unit = unit ∧ t.scaling = scaling

theorem identifies_occurs (filed : lex.prefixes.Filed) (sound : u.Sound lex.Names)
    (sound' : v.Sound lex.Names) (tells : u.TellsPrefixes v) : Identifies (Occurs u v) := by
  have names : ∀ t ∈ u.terms ++ v.terms, lex.Names t.unit t.scaling :=
    fun t mem => (sound.append sound' t mem).1.base
  -- terms of different units; those of one are of different kinds
  have across : ∀ t ∈ u.terms, ∀ t' ∈ v.terms, t.sameBase t' = true →
      t.unit = t'.unit ∧ t.scaling = t'.scaling := by
    intro t mem t' mem' same
    have named := (sound.terms t mem).1.base
    have named' := (sound'.terms t' mem').1.base
    have units := lex.identifiesUnits t t' named named' same
    exact ⟨units, scaling_eq_of_sameBase filed named named' same
      (tells t mem t' mem' units (Prod.mk.inj (Term.sameBase_iff.mp same)).2)⟩
  rintro ⟨_, _, n⟩ ⟨_, _, n'⟩ ⟨t, mem, rfl, rfl⟩ ⟨t', mem', rfl, rfl⟩ same
  have same : t.sameBase t' = true := same
  rcases List.mem_append.mp mem with left | right
  · rcases List.mem_append.mp mem' with left' | right'
    · rw [sound.eq_of_sameBase left left' same]
      exact ⟨rfl, rfl⟩
    · exact across t left t' right' same
  · rcases List.mem_append.mp mem' with left' | right'
    · exact (across t' left' t right (Term.sameBase_comm t t' ▸ same)).imp Eq.symm Eq.symm
    · rw [sound'.eq_of_sameBase right right' same]
      exact ⟨rfl, rfl⟩

variable [Field K] [LinearOrder K] [IsStrictOrderedRing K] [Scalar K] [Scalar.Exact K]
  (prefixes : ∀ p ∈ lex.prefixes.all, p.multiplier ≠ 0)
include prefixes

theorem multiplier_eq_valueOf (sound : u.Sound lex.Names) (given : u.multiplier = .ok m) :
    m = valueOf (scaledSize fun _ => 1) u.terms :=
  (valueOf_of_multiplier (fun t mem => lex.scalingMultiplier_ne_zero prefixes
    (sound.terms t mem).1.base) given).symm

theorem multiplier_mul (filed : lex.prefixes.Filed) (sound : u.Sound lex.Names)
    (sound' : v.Sound lex.Names) (tells : u.TellsPrefixes v) (made : u.mul v = .ok w)
    (isK : u.multiplier = .ok k) (isL : v.multiplier = .ok l) (isM : w.multiplier = .ok m) :
    m = k * l := by
  have scaled : ∀ unit scaling, Occurs u v unit scaling →
      scaledSize (fun _ => (1 : K)) unit scaling ≠ 0 := by
    rintro _ _ ⟨t, mem, rfl, rfl⟩
    have names : lex.Names t.unit t.scaling := (sound.append sound' t mem).1.base
    exact mul_ne_zero (lex.scalingMultiplier_ne_zero prefixes names) one_ne_zero
  have left : u.Sound (Occurs u v) :=
    sound.rebase fun t mem => ⟨t, List.mem_append_left _ mem, rfl, rfl⟩
  have right : v.Sound (Occurs u v) :=
    sound'.rebase fun t mem => ⟨t, List.mem_append_right _ mem, rfl, rfl⟩
  rw [multiplier_eq_valueOf prefixes sound isK, multiplier_eq_valueOf prefixes sound' isL,
    multiplier_eq_valueOf prefixes (sound.mul sound' made) isM, ← valueOf_append]
  exact valueOf_ofTerms_of_visible (identifies_occurs filed sound sound' tells) scaled
    (left.append right) made

theorem multiplier_pow (sound : u.Sound lex.Names) (made : u.pow n = .ok w)
    (isK : u.multiplier = .ok k) (isM : w.multiplier = .ok m) : m = k ^ n := by
  rw [multiplier_eq_valueOf prefixes sound isK, multiplier_eq_valueOf prefixes (sound.pow made) isM,
    sound.valueOf_pow made]

end Multipliers

variable [Scalar K]

/-- What is calculated with units is calculated with their multipliers, too, products only if they
tell prefixes apart. -/
structure MultiplierLaws [Field K] (u v : Compound K) (n : Int) : Prop where
  mul : u.TellsPrefixes v → ∀ w k l m, u.mul v = .ok w → u.multiplier = .ok k →
    v.multiplier = .ok l → w.multiplier = .ok m → m = k * l
  pow : ∀ w k m, u.pow n = .ok w → u.multiplier = .ok k → w.multiplier = .ok m → m = k ^ n

end Compound

namespace Lexicon

variable {u v : Compound K} {n : Int}

theorem Over.sound {lex : Lexicon K} (isOver : lex.Over u) : u.Sound lex.Names :=
  isOver.built.sound.rebase isOver.named

section Visible

variable {lex : Lexicon K} (visible : ∀ p ∈ lex.prefixes.all, p.asciiSymbol ≠ "")
include visible

theorem Over.scaling_eq_none_iff (isOver : lex.Over u) {t : Term K} (mem : t ∈ u.terms) :
    t.scaling = none ↔ t.scalingSymbol = "" := by
  unfold Term.scalingSymbol
  cases scaled : t.scaling with
  | none => simp
  | some p => simpa using visible p ((isOver.named t mem).2 p scaled)

/-- Prefixes that all have an ASCII symbol are told by it. -/
theorem Over.tellsPrefixes (isOver : lex.Over u) (isOver' : lex.Over v) : u.TellsPrefixes v :=
  fun t mem t' mem' _ symbols => by
    rw [isOver.scaling_eq_none_iff visible mem, isOver'.scaling_eq_none_iff visible mem', symbols]

end Visible

variable [Scalar K]

/-- **Dimensions and multipliers of calculated units.** For units over one registry, however it came
about, the codes of the dimensions of products, quotients, reciprocals and powers are the products,
quotients, reciprocals and powers of the codes, wherever all of them are given, and leaving out
prefixes keeps the code. With exact numbers the multiplier of a power is the power of the
multiplier; that of a product is the product of the multipliers, unless a unit stands without a
prefix in the one factor and with a prefix that has no ASCII symbol in the other. -/
theorem calculations_homomorphic (edits : List (Edit K)) (isOver : (edited .empty edits).Over u)
    (isOver' : (edited .empty edits).Over v) (nonzero : n ≠ 0) :
    u.DimensionLaws v n ∧
      ∀ [Field K] [LinearOrder K] [IsStrictOrderedRing K] [Scalar.Exact K],
        (∀ p ∈ (edited .empty edits).prefixes.all, 0 < p.multiplier) → u.MultiplierLaws v n := by
  have sound := isOver.sound
  have sound' := isOver'.sound
  refine ⟨Compound.dimensionLaws sound sound' nonzero, fun positive => ?_⟩
  have prefixes : ∀ p ∈ (edited .empty edits).prefixes.all, p.multiplier ≠ 0 :=
    fun p mem => (positive p mem).ne'
  constructor
  · intro tells w k l m made isK isL isM
    exact Compound.multiplier_mul prefixes (filed_edited edits) sound sound' tells made isK isL isM
  · intro w k m made isK isM
    exact Compound.multiplier_pow prefixes sound made isK isM

/-- The SI units with the tabled prefixes. -/
def international : Lexicon ℚ := edited Catalogue.prefixes [.units (.loadSystem .si)]

/-- The multipliers of two units, of their product and of a power of the first. -/
def multipliersOf (lex : Lexicon ℚ) (first second : String) (n : Int) :
    Except Error (ℚ × ℚ × ℚ × ℚ) := do
  let u ← lex.parse first
  let v ← lex.parse second
  let w ← u.mul v
  let p ← u.pow n
  return (← u.multiplier, ← v.multiplier, ← w.multiplier, ← p.multiplier)

theorem multipliersOf_eq_ok {lex : Lexicon ℚ} {first second : String} {k l m q : ℚ}
    (given : multipliersOf lex first second n = .ok (k, l, m, q)) :
    ∃ u v w p, lex.parse first = .ok u ∧ lex.parse second = .ok v ∧ u.mul v = .ok w ∧
      u.pow n = .ok p ∧ u.multiplier = .ok k ∧ v.multiplier = .ok l ∧ w.multiplier = .ok m ∧
      p.multiplier = .ok q := by
  obtain ⟨u, isU, given⟩ := bind_eq_ok.mp given
  obtain ⟨v, isV, given⟩ := bind_eq_ok.mp given
  obtain ⟨w, isW, given⟩ := bind_eq_ok.mp given
  obtain ⟨p, isP, given⟩ := bind_eq_ok.mp given
  obtain ⟨_, isK, given⟩ := bind_eq_ok.mp given
  obtain ⟨_, isL, given⟩ := bind_eq_ok.mp given
  obtain ⟨_, isM, given⟩ := bind_eq_ok.mp given
  obtain ⟨_, isQ, given⟩ := bind_eq_ok.mp given
  cases given
  exact ⟨u, v, w, p, isU, isV, isW, isP, isK, isL, isM, isQ⟩

/-- A speed is multiplied by a squared length and a time, and raised to a power. -/
theorem speed_homomorphic : ∃ u v : Compound ℚ,
    international.parse "km/s" = .ok u ∧ international.parse "km2*s" = .ok v ∧
    u.DimensionLaws v (-2) ∧ u.TellsPrefixes v ∧ u.MultiplierLaws v (-2) ∧
    (1000000000 : ℚ) = 1000 * 1000000 ∧ (1 / 1000000 : ℚ) = 1000 ^ (-2 : Int) := by
  have facts : multipliersOf international "km/s" "km2*s" (-2)
        = .ok (1000, 1000000, 1000000000, 1 / 1000000) ∧
      ∀ p ∈ international.prefixes.all, 0 < p.multiplier ∧ p.asciiSymbol ≠ "" := by
    decide +kernel
  obtain ⟨given, sane⟩ := facts
  obtain ⟨u, v, w, p, isU, isV, isW, isP, isK, isL, isM, isQ⟩ := multipliersOf_eq_ok given
  have isOver := over_of_parse isU
  have isOver' := over_of_parse isV
  have tells := isOver.tellsPrefixes (fun p mem => (sane p mem).2) isOver'
  unfold international at sane
  rw [edited_prefixes] at isOver isOver' sane
  obtain ⟨dimensions, multipliers⟩ :=
    calculations_homomorphic _ isOver isOver' (show (-2 : Int) ≠ 0 by decide)
  have laws := multipliers fun p mem => (sane p mem).1
  exact ⟨u, v, isU, isV, dimensions, tells, laws, laws.mul tells _ _ _ _ isW isK isL isM,
    laws.pow _ _ _ isP isK isQ⟩

/-- A prefix that shows in Unicode only. -/
def tenfold : Prefix ℚ := ⟨"tenfold", "", "Ω", 10, PrefixGroup.largeMetric⟩

/-- Ten metres and one metre are of one kind then, and their product is a hundred square metres. -/
theorem multiplier_not_homomorphic : ¬ ∀ (edits : List (Edit ℚ)) (u v w : Compound ℚ) (k l m : ℚ),
    (edited .empty edits).Over u → (edited .empty edits).Over v →
    (∀ p ∈ (edited .empty edits).prefixes.all, 0 < p.multiplier) → u.mul v = .ok w →
    u.multiplier = .ok k → v.multiplier = .ok l → w.multiplier = .ok m → m = k * l := by
  intro homomorphic
  let edits : List (Edit ℚ) := [.units (.loadSystem .si), .addPrefix tenfold]
  have facts : multipliersOf (edited Catalogue.prefixes edits) "Ωm" "m" 1
        = .ok (10, 1, 100, 10) ∧
      ∀ p ∈ (edited Catalogue.prefixes edits).prefixes.all, 0 < p.multiplier := by
    decide +kernel
  obtain ⟨given, positive⟩ := facts
  obtain ⟨u, v, w, _, isU, isV, isW, _, isK, isL, isM, _⟩ := multipliersOf_eq_ok given
  have isOver := over_of_parse isU
  have isOver' := over_of_parse isV
  rw [edited_prefixes] at isOver isOver' positive
  have wrong : (100 : ℚ) = 10 * 1 :=
    homomorphic _ u v w _ _ _ isOver isOver' positive isW isK isL isM
  norm_num at wrong

end Lexicon

end Metrology
