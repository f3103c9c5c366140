import Metrology.Proofs.Session.Merging
import Metrology.Proofs.Unit.Powers
import Metrology.Session.Query

/-!
# Quantities

A value and a unit make a quantity: the value times the size of the unit, of the dimension of the
unit. Expanding a term scales the value by what the expansion leaves out, that is the prefix and the
multiplier of the unit, both to the power of the term; the prefixes in the expansion stay in its
terms. Merging scales the value by its factor. So both keep the quantity.
-/
namespace Metrology.Session

variable {K : Type} [Field K] [LinearOrder K] [Scalar K]
variable {lex : Lexicon K} {store : EdgeStore K}

/-- A value of a unit is as much as another value of another unit, for all sizes that fit, and of the
same dimension. -/
structure SameQuantity (lex : Lexicon K) (store : EdgeStore K) (value : K) (u : Compound K)
    (r : K × Compound K) : Prop where
  size_eq : ∀ size, lex.Fits store size → value * u.size size = r.1 * r.2.size size
  hasDimension : ∀ d, u.HasDimension d → r.2.HasDimension d

theorem SameQuantity.trans {v w : K} {t u : Compound K} {r : K × Compound K}
    (first : SameQuantity lex store v t (w, u)) (second : SameQuantity lex store w u r) :
    SameQuantity lex store v t r :=
  ⟨fun size fits => (first.size_eq size fits).trans (second.size_eq size fits),
    fun d measured => second.hasDimension d (first.hasDimension d measured)⟩

/-! ### Terms -/

/-- What a term is expanded to, and what that makes of the value: a term of a unit without an expansion
stays as it is. -/
inductive ExpandsTo (lex : Lexicon K) (value : K) (t : Term K) : K → List (Term K) → Prop
  | kept (basic : t.unit.expansion = none) : ExpandsTo lex value t value [t]
  | expanded {e : String} {c p : Compound K} {scale : K} (expands : t.unit.expansion = some e)
      (read : lex.parse e = .ok c) (power : c.pow t.exponent = .ok p)
      (scaled : Scalar.pow (Scalar.mul t.unit.expansionMultiplier t.scalingMultiplier) t.exponent
        = .ok scale) : ExpandsTo lex value t (Scalar.mul value scale) p.terms

variable {t : Term K} {ts us vs : List (Term K)} {value value' w : K}

omit [Field K] [LinearOrder K] in
/-- Terms are expanded one after the other. -/
theorem expandTerms_cons (expanded : expandTerms lex value (t :: ts) = .ok (value', us)) :
    ∃ w own vs, ExpandsTo lex value t w own ∧ expandTerms lex w ts = .ok (value', vs) ∧
      us = own ++ vs := by
  rw [expandTerms] at expanded
  split at expanded
  next basic =>
    obtain ⟨⟨_, vs⟩, tail, same⟩ := bind_eq_ok.mp expanded
    obtain ⟨rfl, rfl⟩ := Prod.mk.inj (Except.ok.inj same)
    exact ⟨value, [t], vs, .kept basic, tail, rfl⟩
  next e expands =>
    obtain ⟨c, read, rest⟩ := bind_eq_ok.mp expanded
    obtain ⟨p, power, rest⟩ := bind_eq_ok.mp rest
    obtain ⟨scale, scaled, rest⟩ := bind_eq_ok.mp rest
    obtain ⟨⟨_, vs⟩, tail, same⟩ := bind_eq_ok.mp rest
    obtain ⟨rfl, rfl⟩ := Prod.mk.inj (Except.ok.inj same)
    exact ⟨_, p.terms, vs, .expanded expands read power scaled, tail, rfl⟩

omit [Field K] [LinearOrder K] in
/-- Expanding leads to no units outside the lexicon. -/
theorem ExpandsTo.sound (expands : ExpandsTo lex value t w us) (indexed : lex.Indexed)
    (sound : t.Sound lex.Names ∧ t.isScalar = false) :
    ∀ u ∈ us, u.Sound lex.Names ∧ u.isScalar = false := by
  cases expands with
  | kept => exact fun u mem => List.mem_singleton.mp mem ▸ sound
  | expanded _ read power => exact ((indexed.sound_of_parse read).pow power).terms

omit [Field K] [LinearOrder K] in
theorem sound_of_expandTerms (indexed : lex.Indexed)
    (sound : ∀ t ∈ ts, t.Sound lex.Names ∧ t.isScalar = false)
    (expanded : expandTerms lex value ts = .ok (value', us)) :
    ∀ u ∈ us, u.Sound lex.Names ∧ u.isScalar = false := by
  induction ts generalizing value us with
  | nil =>
    obtain ⟨_, rfl⟩ := Prod.mk.inj (Except.ok.inj expanded)
    exact fun _ mem => absurd mem List.not_mem_nil
  | cons t rest ih =>
    obtain ⟨first, others⟩ := List.forall_mem_cons.mp sound
    obtain ⟨w, own, vs, head, tail, rfl⟩ := expandTerms_cons expanded
    exact fun u mem => (List.mem_append.mp mem).elim (head.sound indexed first u) (ih others tail u)

variable [IsStrictOrderedRing K] [Scalar.Exact K] (tabled : lex.Tabled)
include tabled

/-- What the expansion leaves out goes to the value: the prefix and the multiplier of the unit, to
the power of the term. -/
theorem ExpandsTo.size_eq {size : NamedUnit K → K} (fits : lex.Fits store size)
    (expands : ExpandsTo lex value t w us) (sound : t.Sound lex.Names) :
    value * scaledSize size t.unit t.scaling ^ t.exponent
      = w * Compound.valueOf (scaledSize size) us := by
  cases expands with
  | kept => rw [Compound.valueOf_cons, Compound.valueOf_nil, mul_one]
  | @expanded e c p scale expands read power scaled =>
    have names := sound.base
    have stands := fits.expansions _ t.unit e c names.1 expands read
    have multiplier : t.unit.expansionMultiplier ≠ 0 := by
      intro zero
      rw [zero, zero_mul] at stands
      exact (fits.positive _ t.unit names.1).ne' stands
    have nonzero := mul_ne_zero multiplier (tabled.scalingMultiplier_ne_zero names)
    rw [Scalar.Exact.mul_eq] at scaled
    have raised : Compound.valueOf (scaledSize size) p.terms = c.size size ^ t.exponent :=
      (tabled.sound_of_parse read).valueOf_pow power
    have own : scaledSize size t.unit t.scaling
        = t.unit.expansionMultiplier * t.scalingMultiplier * c.size size := by
      rw [mul_right_comm, ← stands, mul_comm]
      rfl
    rw [own, mul_zpow, raised, Scalar.Exact.mul_eq, value_of_scalarPow nonzero scaled, mul_assoc]

/-- Expanding keeps the product of the value and the size of the terms. -/
theorem size_of_expandTerms {size : NamedUnit K → K} (fits : lex.Fits store size)
    (sound : ∀ t ∈ ts, t.Sound lex.Names) (expanded : expandTerms lex value ts = .ok (value', us)) :
    value * Compound.valueOf (scaledSize size) ts
      = value' * Compound.valueOf (scaledSize size) us := by
  induction ts generalizing value us with
  | nil =>
    obtain ⟨rfl, rfl⟩ := Prod.mk.inj (Except.ok.inj expanded)
    rfl
  | cons t rest ih =>
    obtain ⟨first, others⟩ := List.forall_mem_cons.mp sound
    obtain ⟨w, own, vs, head, tail, rfl⟩ := expandTerms_cons expanded
    rw [Compound.valueOf_cons, Compound.valueOf_append, ← mul_assoc, head.size_eq tabled fits first,
      mul_right_comm, ih others tail, mul_right_comm, mul_assoc]

omit [LinearOrder K] [IsStrictOrderedRing K] [Scalar.Exact K] in
theorem ExpandsTo.dimension_eq {χ : Dimension → K} (character : Character χ)
    (expands : ExpandsTo lex value t w us) (sound : t.Sound lex.Names) :
    Compound.valueOf (fun u _ => χ u.dimension) us = χ t.unit.dimension ^ t.exponent := by
  cases expands with
  | kept => rw [Compound.valueOf_cons, Compound.valueOf_nil, mul_one]
  | expanded expands read power =>
    rw [(tabled.sound_of_parse read).valueOf_pow power,
      tabled.hasDimension_of_expansion sound.base.1 expands read χ character]

omit [LinearOrder K] [IsStrictOrderedRing K] [Scalar.Exact K] in
/-- Expanding keeps the dimension of the terms. -/
theorem dimension_of_expandTerms {χ : Dimension → K} (character : Character χ)
    (sound : ∀ t ∈ ts, t.Sound lex.Names) (expanded : expandTerms lex value ts = .ok (value', us)) :
    Compound.valueOf (fun u _ => χ u.dimension) us
      = Compound.valueOf (fun u _ => χ u.dimension) ts := by
  induction ts generalizing value us with
  | nil =>
    obtain ⟨_, rfl⟩ := Prod.mk.inj (Except.ok.inj expanded)
    rfl
  | cons t rest ih =>
    obtain ⟨first, others⟩ := List.forall_mem_cons.mp sound
    obtain ⟨w, own, vs, head, tail, rfl⟩ := expandTerms_cons expanded
    rw [Compound.valueOf_append, Compound.valueOf_cons, ih others tail,
      head.dimension_eq tabled character first]

/-- Expanded terms make up the same quantity. -/
theorem sameQuantity_of_expandTerms {u c : Compound K} (sound : u.Sound lex.Names)
    (expanded : expandTerms lex value u.terms = .ok (value', us))
    (product : Compound.ofTerms us = .ok c) : SameQuantity lex store value u (value', c) := by
  have soundU : ∀ t ∈ u.terms, t.Sound lex.Names := fun t mem => (sound.terms t mem).1
  have terms := sound_of_expandTerms tabled.indexed sound.terms expanded
  refine ⟨fun size fits => ?_, fun d measured χ character => ?_⟩
  · have whole := Compound.valueOf_ofTerms_of_visible tabled.identifies
      (fits.scaledSize_ne_zero tabled) terms product
    rw [Compound.size_eq, Compound.size_eq, whole, size_of_expandTerms tabled fits soundU expanded]
  · have whole : Compound.valueOf (fun u _ => χ u.dimension) c.terms
        = Compound.valueOf (fun u _ => χ u.dimension) us :=
      Compound.valueOf_ofTerms_of_visible tabled.identifies (fun _ _ _ => character.ne_zero _) terms
        product
    rw [whole, dimension_of_expandTerms tabled character soundU expanded, measured χ character]

omit tabled [IsStrictOrderedRing K] in
/-- Merging makes up for its factor in the value. -/
theorem Merged.sameQuantity {u : Compound K} {r : Factor K × Compound K}
    (merged : Merged lex store u r) (value : K) :
    SameQuantity lex store value u (Scalar.mul value r.1.value, r.2) := by
  refine ⟨fun size fits => ?_, merged.hasDimension⟩
  rw [merged.size_eq size fits, Scalar.Exact.mul_eq, mul_assoc]

end Metrology.Session
