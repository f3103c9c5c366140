import Mathlib.Algebra.Order.BigOperators.Group.List
import Metrology.Proofs.Arithmetic
import Metrology.Proofs.Unit.RoundTrip
import Metrology.Proofs.Unit.Size
import Metrology.Proofs.Unit.Total

/-!
# Small units

A product of terms fails only where exponents add up to more than is allowed. So it is given if all
the exponents together are small enough, and the units of the tables are small in this sense. What its
prefixes multiply it by is as good as they are.
-/
namespace Metrology

variable {K : Type} {P : NamedUnit K → Option (Prefix K) → Prop}

theorem Term.make_isOk {u : NamedUnit K} {scaling : Option (Prefix K)} {n : Int} (nonzero : n ≠ 0)
    (range : n.natAbs ≤ maxExponent) (accepted : ∀ p, scaling = some p → u.accepts p = true) :
    ∃ t, Term.make u scaling n = .ok t :=
  ⟨_, Term.make_eq_ok.mpr ⟨rfl, nonzero, range, accepted⟩⟩

namespace Compound

variable {c : Compound K} {t : Term K} {ts : List (Term K)} {ps : List (Pile K)}

/-- The sizes of the exponents together. -/
def span (ts : List (Term K)) : Nat := (ts.map (·.exponent.natAbs)).sum

@[simp] theorem span_cons (t : Term K) (ts : List (Term K)) :
    span (t :: ts) = t.exponent.natAbs + span ts := by
  simp [span]

/-- The span of piles. -/
def spanOfPiles (ps : List (Pile K)) : Nat := (ps.map (·.exponent.natAbs)).sum

@[simp] theorem spanOfPiles_cons (p : Pile K) (ps : List (Pile K)) :
    spanOfPiles (p :: ps) = p.exponent.natAbs + spanOfPiles ps := by
  simp [spanOfPiles]

theorem natAbs_le_spanOfPiles {p : Pile K} (mem : p ∈ ps) :
    p.exponent.natAbs ≤ spanOfPiles ps :=
  List.single_le_sum (by simp) _ (List.mem_map_of_mem mem)

theorem spanOfPiles_pile : spanOfPiles (pile t ps) ≤ spanOfPiles ps + t.exponent.natAbs := by
  induction ps with
  | nil => simp [pile, spanOfPiles]
  | cons p ps ih =>
    rw [pile]
    split
    next =>
      rw [spanOfPiles_cons, spanOfPiles_cons]
      dsimp only
      omega
    next =>
      rw [spanOfPiles_cons, spanOfPiles_cons]
      omega

theorem spanOfPiles_foldl :
    spanOfPiles (ts.foldl (fun ps t => pile t ps) ps) ≤ spanOfPiles ps + span ts := by
  induction ts generalizing ps with
  | nil => exact Nat.le_add_right _ _
  | cons t ts ih =>
    have first : spanOfPiles (pile t ps) ≤ spanOfPiles ps + t.exponent.natAbs := spanOfPiles_pile
    have rest : spanOfPiles (ts.foldl (fun ps t => pile t ps) (pile t ps)) ≤
        spanOfPiles (pile t ps) + span ts := ih
    rw [List.foldl_cons, span_cons]
    omega

theorem span_filter (ts : List (Term K)) (p : Term K → Bool) : span (ts.filter p) ≤ span ts :=
  ((List.filter_sublist (l := ts)).map _).sum_le_sum (by simp)

theorem spanOfPiles_piles (ts : List (Term K)) : spanOfPiles (piles ts) ≤ span ts := by
  have run : spanOfPiles (piles ts) ≤ spanOfPiles ([] : List (Pile K)) +
      span (ts.filter fun t => !t.isScalar) := spanOfPiles_foldl
  have visible := span_filter ts fun t => !t.isScalar
  have none : spanOfPiles ([] : List (Pile K)) = 0 := rfl
  omega

/-- Piles that cancel are left out, so a product has no larger exponents than its factors. -/
theorem span_of_ofTerms (product : ofTerms ts = .ok c) : span c.terms ≤ span ts := by
  obtain ⟨us, leveled, rfl⟩ := map_eq_ok.mp product
  have kept : span us = spanOfPiles ((piles ts).filter fun p => p.exponent ≠ 0) := by
    rw [terms_of_level leveled]
    simp [span, spanOfPiles, Function.comp_def]
  have fewer : spanOfPiles ((piles ts).filter fun p => p.exponent ≠ 0) ≤ spanOfPiles (piles ts) :=
    (List.filter_sublist.map _).sum_le_sum (by simp)
  have inside := spanOfPiles_piles ts
  show span us ≤ span ts
  omega

/-- A small product is given, and is small. -/
theorem ofTerms_isOk (sound : ∀ t ∈ ts, t.Sound P) (small : span ts ≤ maxExponent) :
    ∃ c, ofTerms ts = .ok c ∧ span c.terms ≤ span ts := by
  have heads := (piles_heads sound).2
  have inside := spanOfPiles_piles ts
  obtain ⟨us, leveled⟩ : ∃ us, level (piles ts) = .ok us := by
    refine mapM_isOk fun p mem => ?_
    obtain ⟨isPile, shown⟩ := List.mem_filter.mp mem
    have own := natAbs_le_spanOfPiles isPile
    exact Term.make_isOk (by simpa using shown) (by omega) (heads p isPile).1.accepted
  have product : ofTerms ts = .ok ⟨us⟩ := map_eq_ok.mpr ⟨us, leveled, rfl⟩
  exact ⟨⟨us⟩, product, span_of_ofTerms product⟩

theorem mapM_withoutPrefix (sound : c.Sound P) :
    c.terms.mapM Term.withoutPrefix = .ok (c.terms.map fun t => ⟨t.unit, none, t.exponent⟩) := by
  obtain ⟨us, all⟩ : ∃ us, c.terms.mapM Term.withoutPrefix = .ok us := by
    refine mapM_isOk fun t mem => ?_
    have own := (sound.terms t mem).1
    exact Term.make_isOk own.nonzero own.range nofun
  rw [all, terms_of_withoutPrefix all]

/-- Different units are of different kinds. -/
theorem distinct_of_units {lex : Lexicon K} (names : ∀ t ∈ ts, lex.Names t.unit t.scaling)
    (apart : ts.Pairwise fun t u => t.unit ≠ u.unit) : Distinct ts :=
  apart.imp_of_mem fun mem mem' other => Bool.eq_false_iff.mpr fun same =>
    other (lex.identifiesUnits _ _ (names _ mem) (names _ mem') same)

/-- The terms without their prefixes, one by one. -/
def bare (c : Compound K) : Compound K := ⟨c.terms.map fun t => ⟨t.unit, none, t.exponent⟩⟩

theorem bare_reordered (c : Compound K) : c.bare.reordered = c.reordered.bare := by
  simp [reordered, above, below, bare, List.filter_map, Function.comp_def]

/-- Without their prefixes, units that differ by the order of their terms have one symbol. -/
theorem write_bare_of_reordered {d : Compound K} (same : c.reordered = d.reordered)
    (script : Script) : c.bare.write script = d.bare.write script := by
  rw [← write_reordered, bare_reordered, same, ← bare_reordered, write_reordered]

/-- Prefixes of different units are taken off term by term. -/
theorem withoutPrefixes_of_units {lex : Lexicon K} (sound : c.Sound lex.Names)
    (apart : c.terms.Pairwise fun t u => t.unit ≠ u.unit) : c.withoutPrefixes = .ok c.bare := by
  have names : ∀ t ∈ c.terms.map fun t => (⟨t.unit, none, t.exponent⟩ : Term K),
      t.Sound lex.Names ∧ t.isScalar = false := by
    intro t mem
    obtain ⟨u, inside, rfl⟩ := List.mem_map.mp mem
    obtain ⟨own, visible⟩ := sound.terms u inside
    exact ⟨⟨own.base.withoutPrefix, own.nonzero, own.range, nofun⟩, visible⟩
  have plain : c.bare.Sound lex.Names :=
    ⟨names, distinct_of_units (fun t mem => (names t mem).1.base) (List.pairwise_map.mpr apart)⟩
  exact bind_eq_ok.mpr ⟨_, mapM_withoutPrefix sound, plain.ofTerms_terms⟩

/-- A small unit may be stripped of its prefixes. -/
theorem withoutPrefixes_isOk {lex : Lexicon K} (sound : c.Sound lex.Names)
    (small : span c.terms ≤ maxExponent) : ∃ d, c.withoutPrefixes = .ok d := by
  have bare := mapM_withoutPrefix sound
  have plain : ∀ t ∈ c.terms.map fun t => (⟨t.unit, none, t.exponent⟩ : Term K),
      t.Sound lex.Names := by
    intro t mem
    obtain ⟨u, inside, rfl⟩ := List.mem_map.mp mem
    have own := (sound.terms u inside).1
    exact ⟨own.base.withoutPrefix, own.nonzero, own.range, nofun⟩
  have same : span (c.terms.map fun t => (⟨t.unit, none, t.exponent⟩ : Term K)) = span c.terms := by
    simp [span, Function.comp_def]
  obtain ⟨d, product, _⟩ := ofTerms_isOk plain (same ▸ small)
  exact ⟨d, bind_eq_ok.mpr ⟨_, bare, product⟩⟩

end Compound

/-! ### Prefixes -/

section Prefixes

variable [Scalar K] {good : K → Prop} {fault : Error → Prop} (within : Scalar.Within good fault)
  {lex : Lexicon K}
include within

theorem Catalogue.good_multiplier {p : Prefix K} (mem : p ∈ (prefixes : PrefixTable K).all) :
    good p.multiplier := by
  have digits : ∀ row ∈ prefixRows, row.multiplier.digits ≠ 0 := by decide
  obtain ⟨row, isRow, rfl⟩ := exists_row_of_mem mem
  exact within.decimal _ (digits row isRow)

theorem Lexicon.Tabled.good_prefixes (tabled : lex.Tabled) :
    ∀ p ∈ lex.prefixes.all, good p.multiplier := by
  rw [tabled.prefixes]
  exact fun p mem => Catalogue.good_multiplier within mem

variable (prefixes : ∀ p ∈ lex.prefixes.all, good p.multiplier)
include prefixes

theorem Lexicon.good_scalingMultiplier {t : Term K} (names : lex.Names t.unit t.scaling) :
    good t.scalingMultiplier := by
  unfold Term.scalingMultiplier
  split
  next => exact within.one
  next p scaled => exact prefixes p (names.2 p scaled)

theorem Term.brings_multiplier {t : Term K} (names : lex.Names t.unit t.scaling) :
    Brings good fault t.multiplier :=
  within.pow _ _ (lex.good_scalingMultiplier within prefixes names)

theorem Compound.brings_multiplier {c : Compound K} (sound : c.Sound lex.Names) :
    Brings good fault c.multiplier := by
  refine .foldlM (fun x t mem start => ?_) within.one
  exact (Term.brings_multiplier within prefixes (sound.terms t mem).1.base).map
    fun m own => within.mul _ _ start own

end Prefixes

/-- Prefixes that are not zero do not make a unit zero. -/
theorem Lexicon.scalingMultiplier_ne_zero [Field K] [LinearOrder K] [IsStrictOrderedRing K]
    [Scalar K] [Scalar.Exact K] {lex : Lexicon K}
    (nonzero : ∀ p ∈ lex.prefixes.all, p.multiplier ≠ 0) {t : Term K}
    (names : lex.Names t.unit t.scaling) : t.scalingMultiplier ≠ 0 :=
  lex.good_scalingMultiplier .exact nonzero names

end Metrology
