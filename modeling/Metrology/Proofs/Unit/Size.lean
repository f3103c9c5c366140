import Mathlib.Algebra.BigOperators.Group.List.Basic
import Mathlib.Algebra.GroupWithZero.Basic
import Metrology.Proofs.ExactNumber
import Metrology.Proofs.Unit.Product

/-!
# Sizes of units

Any value that is given to the units, with their prefixes, extends to compound units: each term
counts with the power of its value. Combining the terms of a product keeps that value.
-/
namespace Metrology

variable {K : Type} {P : NamedUnit K → Option (Prefix K) → Prop}

/-- Within `P`, terms of one kind have the same unit and the same prefix. -/
def Identifies (P : NamedUnit K → Option (Prefix K) → Prop) : Prop :=
  ∀ t u : Term K, P t.unit t.scaling → P u.unit u.scaling → t.sameBase u = true →
    t.unit = u.unit ∧ t.scaling = u.scaling

namespace Compound

variable [Field K] {value : NamedUnit K → Option (Prefix K) → K}

/-- The product of the values of the terms, each raised to its exponent. -/
def valueOf (value : NamedUnit K → Option (Prefix K) → K) (ts : List (Term K)) : K :=
  (ts.map fun t => value t.unit t.scaling ^ t.exponent).prod

@[simp] theorem valueOf_nil : valueOf value [] = 1 := rfl

@[simp] theorem valueOf_cons (t : Term K) (ts : List (Term K)) :
    valueOf value (t :: ts) = value t.unit t.scaling ^ t.exponent * valueOf value ts := by
  simp [valueOf]

theorem valueOf_ne_zero (nonzero : ∀ u p, P u p → value u p ≠ 0) {ts : List (Term K)}
    (sound : ∀ t ∈ ts, t.Sound P) : valueOf value ts ≠ 0 := by
  induction ts with
  | nil => simp
  | cons t ts ih =>
    rw [valueOf_cons]
    exact mul_ne_zero (zpow_ne_zero _ (nonzero _ _ (sound t List.mem_cons_self).base))
      (ih fun u mem => sound u (List.mem_cons_of_mem _ mem))

/-- The value of piles. -/
def valueOfPiles (value : NamedUnit K → Option (Prefix K) → K) (ps : List (Pile K)) : K :=
  (ps.map fun p => value p.head.unit p.head.scaling ^ p.exponent).prod

theorem valueOfPiles_cons (p : Pile K) (ps : List (Pile K)) :
    valueOfPiles value (p :: ps)
      = value p.head.unit p.head.scaling ^ p.exponent * valueOfPiles value ps := by
  simp [valueOfPiles]

/-- Adding a term multiplies the value of the piles by that of the term. -/
theorem valueOfPiles_pile (identifies : Identifies P) (nonzero : ∀ u p, P u p → value u p ≠ 0)
    {t : Term K} (base : P t.unit t.scaling) {ps : List (Pile K)}
    (heads : ∀ p ∈ ps, P p.head.unit p.head.scaling) :
    valueOfPiles value (pile t ps)
      = valueOfPiles value ps * value t.unit t.scaling ^ t.exponent := by
  induction ps with
  | nil => simp [pile, valueOfPiles]
  | cons p ps ih =>
    have head := heads p List.mem_cons_self
    rw [pile]
    split
    next same =>
      obtain ⟨unit, scaling⟩ := identifies _ _ head base same
      rw [valueOfPiles_cons, valueOfPiles_cons, ← unit, ← scaling, zpow_add₀ (nonzero _ _ head)]
      ring
    next =>
      rw [valueOfPiles_cons, valueOfPiles_cons,
        ih fun q mem => heads q (List.mem_cons_of_mem _ mem)]
      ring

theorem valueOfPiles_foldl (identifies : Identifies P) (nonzero : ∀ u p, P u p → value u p ≠ 0)
    {ts : List (Term K)} (bases : ∀ t ∈ ts, P t.unit t.scaling) {ps : List (Pile K)}
    (heads : ∀ p ∈ ps, P p.head.unit p.head.scaling) :
    valueOfPiles value (ts.foldl (fun ps t => pile t ps) ps)
      = valueOfPiles value ps * valueOf value ts := by
  induction ts generalizing ps with
  | nil => simp
  | cons t ts ih =>
    have base := bases t List.mem_cons_self
    have more : ∀ p ∈ pile t ps, P p.head.unit p.head.scaling := by
      intro p mem
      rcases mem_pile mem with same | ⟨q, inside, same⟩
      · rwa [same]
      · rw [← same]
        exact heads q inside
    rw [List.foldl_cons, ih (fun u mem => bases u (List.mem_cons_of_mem _ mem)) more,
      valueOfPiles_pile identifies nonzero base heads, valueOf_cons]
    ring

/-- Scalars, which a product leaves out, count for nothing. -/
theorem valueOf_filter_isScalar {ts : List (Term K)}
    (scalar : ∀ t ∈ ts, t.isScalar = true → value t.unit t.scaling = 1) :
    valueOf value (ts.filter fun t => !t.isScalar) = valueOf value ts := by
  induction ts with
  | nil => rfl
  | cons t ts ih =>
    have rest := ih fun u mem => scalar u (List.mem_cons_of_mem _ mem)
    rw [List.filter_cons, valueOf_cons, ← rest]
    split
    next => rw [valueOf_cons]
    next shown =>
      have hidden : t.isScalar = true := by simpa using shown
      rw [scalar t List.mem_cons_self hidden, one_zpow, one_mul]

/-- So do piles that cancel. -/
theorem valueOf_level {ps : List (Pile K)} {ts : List (Term K)} (leveled : level ps = .ok ts) :
    valueOf value ts = valueOfPiles value ps := by
  rw [terms_of_level leveled]
  clear leveled
  induction ps with
  | nil => rfl
  | cons p ps ih =>
    rw [valueOfPiles_cons, ← ih, List.filter_cons]
    split
    next => simp
    next shown =>
      have cancels : p.exponent = 0 := by simpa using shown
      rw [cancels, zpow_zero, one_mul]

/-- A product has the value of its factors together. -/
theorem valueOf_ofTerms (identifies : Identifies P) (nonzero : ∀ u p, P u p → value u p ≠ 0)
    {ts : List (Term K)} (sound : ∀ t ∈ ts, t.Sound P)
    (scalar : ∀ t ∈ ts, t.isScalar = true → value t.unit t.scaling = 1) {c : Compound K}
    (made : ofTerms ts = .ok c) : valueOf value c.terms = valueOf value ts := by
  obtain ⟨us, leveled, rfl⟩ := map_eq_ok.mp made
  have bases : ∀ t ∈ ts.filter fun t => !t.isScalar, P t.unit t.scaling :=
    fun t mem => (sound t (List.mem_filter.mp mem).1).base
  rw [valueOf_level leveled, piles, valueOfPiles_foldl identifies nonzero bases (by simp),
    valueOf_filter_isScalar scalar]
  simp [valueOfPiles]

theorem valueOf_ofTerms_of_visible (identifies : Identifies P)
    (nonzero : ∀ u p, P u p → value u p ≠ 0) {ts : List (Term K)}
    (sound : ∀ t ∈ ts, t.Sound P ∧ t.isScalar = false) {c : Compound K}
    (made : ofTerms ts = .ok c) : valueOf value c.terms = valueOf value ts :=
  valueOf_ofTerms identifies nonzero (fun t mem => (sound t mem).1)
    (fun t mem scalar => by simp [(sound t mem).2] at scalar) made

/-- The order of the terms does not show in the value. -/
theorem valueOf_reordered {c : Compound K} (sound : c.Sound P) :
    valueOf value c.reordered.terms = valueOf value c.terms :=
  (sound.reordered_perm.map _).prod_eq

/-- Without prefixes every unit counts with its value alone. -/
theorem valueOf_withoutPrefixes (identifies : Identifies P)
    (nonzero : ∀ u p, P u p → value u p ≠ 0) (bare : ∀ u p, P u p → P u none) {c d : Compound K}
    (sound : c.Sound P) (made : c.withoutPrefixes = .ok d) :
    valueOf value d.terms = valueOf (fun u _ => value u none) c.terms := by
  obtain ⟨ts, all, product⟩ := bind_eq_ok.mp made
  rw [valueOf_ofTerms_of_visible identifies nonzero (sound.terms_withoutPrefix bare all) product,
    terms_of_withoutPrefix all]
  simp [valueOf, Function.comp_def]

end Compound

/-! ### Sizes -/

section Sizes

variable [Field K] [Scalar K]

/-- The size of a unit with its prefix. -/
def scaledSize (size : NamedUnit K → K) (u : NamedUnit K) (scaling : Option (Prefix K)) : K :=
  Term.scalingMultiplier ⟨u, scaling, 1⟩ * size u

/-- The size of a term, from the sizes of the units. -/
def Term.size (size : NamedUnit K → K) (t : Term K) : K :=
  (t.scalingMultiplier * size t.unit) ^ t.exponent

/-- The size of a compound unit, the product of the sizes of its terms. -/
def Compound.size (size : NamedUnit K → K) (c : Compound K) : K :=
  (c.terms.map (Term.size size)).prod

theorem Compound.size_eq (size : NamedUnit K → K) (c : Compound K) :
    c.size size = valueOf (scaledSize size) c.terms := rfl

variable [LinearOrder K] [Scalar.Exact K]

theorem scaledSize_none (size : NamedUnit K → K) (u : NamedUnit K) :
    scaledSize size u none = size u := by
  rw [scaledSize, Term.scalingMultiplier, Scalar.Exact.one_eq, one_mul]

theorem value_of_scalarPow {x y : K} {n : Int} (nonzero : x ≠ 0) (given : Scalar.pow x n = .ok y) :
    y = x ^ n := by
  rw [Scalar.Exact.pow_eq (.inl nonzero)] at given
  exact (Except.ok.inj given).symm

/-- The multiplier of a unit is what its prefixes make of its size. -/
theorem Compound.size_of_multiplier {size : NamedUnit K → K} {c : Compound K} {m : K}
    (scaled : ∀ t ∈ c.terms, t.scalingMultiplier ≠ 0) (given : c.multiplier = .ok m) :
    c.size size = m * valueOf (fun u _ => size u) c.terms := by
  have run : ∀ ts : List (Term K), (∀ t ∈ ts, t.scalingMultiplier ≠ 0) → ∀ start : K,
      ts.foldlM (fun product t => t.multiplier.map (Scalar.mul product)) start = .ok m →
      start * valueOf (scaledSize size) ts = m * valueOf (fun u _ => size u) ts := by
    intro ts
    induction ts with
    | nil =>
      intro _ start given
      obtain rfl := Except.ok.inj given
      simp
    | cons t ts ih =>
      intro scaled start given
      rw [List.foldlM_cons] at given
      obtain ⟨next, first, rest⟩ := bind_eq_ok.mp given
      obtain ⟨power, isPower, rfl⟩ := map_eq_ok.mp first
      have later := ih (fun u mem => scaled u (List.mem_cons_of_mem _ mem)) _ rest
      have value := value_of_scalarPow (scaled t List.mem_cons_self) isPower
      rw [Scalar.Exact.mul_eq, value] at later
      have own : scaledSize size t.unit t.scaling = t.scalingMultiplier * size t.unit := rfl
      rw [valueOf_cons, valueOf_cons, own, mul_zpow]
      calc start * (t.scalingMultiplier ^ t.exponent * size t.unit ^ t.exponent
            * valueOf (scaledSize size) ts)
          = size t.unit ^ t.exponent
            * (start * t.scalingMultiplier ^ t.exponent * valueOf (scaledSize size) ts) := by ring
        _ = size t.unit ^ t.exponent * (m * valueOf (fun u _ => size u) ts) := by rw [later]
        _ = m * (size t.unit ^ t.exponent * valueOf (fun u _ => size u) ts) := by ring
  rw [size_eq]
  have := run c.terms scaled Scalar.one given
  rwa [Scalar.Exact.one_eq, one_mul] at this

/-- It is the size of the unit where units without prefixes have the size one. -/
theorem Compound.valueOf_of_multiplier {c : Compound K} {m : K}
    (scaled : ∀ t ∈ c.terms, t.scalingMultiplier ≠ 0) (given : c.multiplier = .ok m) :
    valueOf (scaledSize fun _ => 1) c.terms = m := by
  have size : c.size (fun _ => 1) = m * valueOf (fun _ _ => 1) c.terms :=
    size_of_multiplier scaled given
  have ones : valueOf (fun _ _ => (1 : K)) c.terms = 1 := by simp [valueOf]
  rwa [ones, mul_one] at size

end Sizes

/-! ### Dimensions -/

section Dimensions

variable [Field K]

/-- A value for every dimension that turns products into products. -/
structure Character (χ : Dimension → K) : Prop where
  one : χ .dimensionless = 1
  mul : ∀ d e, χ (d.mul e) = χ d * χ e
  pow : ∀ d n, χ (d.pow n) = χ d ^ n

theorem Character.ne_zero {χ : Dimension → K} (character : Character χ) (d : Dimension) :
    χ d ≠ 0 := by
  have cancels : d.mul (d.pow (-1)) = .dimensionless := Dimension.ext_exponent fun a => by simp
  have product := character.mul d (d.pow (-1))
  rw [cancels, character.one] at product
  exact left_ne_zero_of_mul_eq_one product.symm

/-- The dimension of a compound unit has the value of the dimensions of its terms. -/
theorem Compound.valueOf_dimension {χ : Dimension → K} (character : Character χ) {c : Compound K}
    {d : Dimension} (given : c.dimension = .ok d) :
    valueOf (fun u _ => χ u.dimension) c.terms = χ d := by
  have run : ∀ ts : List (Term K), ∀ start e : Dimension,
      ts.foldlM (fun d t => t.dimension.map d.mul) start = .ok e →
      χ start * valueOf (fun u _ => χ u.dimension) ts = χ e := by
    intro ts
    induction ts with
    | nil =>
      intro start e given
      obtain rfl := Except.ok.inj given
      simp
    | cons t ts ih =>
      intro start e given
      rw [List.foldlM_cons] at given
      obtain ⟨next, first, rest⟩ := bind_eq_ok.mp given
      obtain ⟨own, isOwn, rfl⟩ := map_eq_ok.mp first
      obtain ⟨rfl, _⟩ := Dimension.checked_eq_ok_iff.mp isOwn
      rw [valueOf_cons, ← ih _ _ rest, character.mul, character.pow, mul_assoc]
  obtain ⟨e, sum, checked⟩ := bind_eq_ok.mp given
  obtain ⟨rfl, _⟩ := Dimension.checked_eq_ok_iff.mp checked
  rw [← run c.terms _ _ sum, character.one, one_mul]

end Dimensions

end Metrology
