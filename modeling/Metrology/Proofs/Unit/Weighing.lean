import Metrology.Proofs.Unit.Product

/-!
# Weighing terms

Units and prefixes are given weights, and a product weighs what its terms weigh together, each taken
as often as its exponent says. Combining the terms of a product keeps its weight, provided that terms
of one kind have the same weight.
-/
namespace Metrology

variable {K : Type} {P : NamedUnit K → Option (Prefix K) → Prop}

/-- Within `P`, terms of one kind have the same weight. -/
def Uniform (P : NamedUnit K → Option (Prefix K) → Prop)
    (weight : NamedUnit K → Option (Prefix K) → Int) : Prop :=
  ∀ t u : Term K, P t.unit t.scaling → P u.unit u.scaling → t.sameBase u = true →
    weight t.unit t.scaling = weight u.unit u.scaling

namespace Compound

variable {weight : NamedUnit K → Option (Prefix K) → Int} {c : Compound K} {t : Term K}
  {ts us : List (Term K)} {ps : List (Pile K)}

/-- The sum of the weights of terms, each taken as often as its exponent says. -/
def weigh (weight : NamedUnit K → Option (Prefix K) → Int) (ts : List (Term K)) : Int :=
  (ts.map fun t => weight t.unit t.scaling * t.exponent).sum

@[simp] theorem weigh_nil : weigh weight [] = 0 := rfl

@[simp] theorem weigh_cons (t : Term K) (ts : List (Term K)) :
    weigh weight (t :: ts) = weight t.unit t.scaling * t.exponent + weigh weight ts := by
  simp [weigh]

@[simp] theorem weigh_append (ts us : List (Term K)) :
    weigh weight (ts ++ us) = weigh weight ts + weigh weight us := by
  simp [weigh]

/-- Raising every term to a power multiplies the weight. -/
theorem weigh_map_mul (ts : List (Term K)) (n : Int) :
    weigh weight (ts.map fun t => ⟨t.unit, t.scaling, t.exponent * n⟩) = weigh weight ts * n := by
  induction ts with
  | nil => simp
  | cons t ts ih => rw [List.map_cons, weigh_cons, weigh_cons, ih, Int.add_mul, Int.mul_assoc]

/-- The weight of piles. -/
def weighPiles (weight : NamedUnit K → Option (Prefix K) → Int) (ps : List (Pile K)) : Int :=
  (ps.map fun p => weight p.head.unit p.head.scaling * p.exponent).sum

@[simp] theorem weighPiles_nil : weighPiles weight [] = 0 := rfl

@[simp] theorem weighPiles_cons (p : Pile K) (ps : List (Pile K)) :
    weighPiles weight (p :: ps)
      = weight p.head.unit p.head.scaling * p.exponent + weighPiles weight ps := by
  simp [weighPiles]

/-- Adding a term adds its weight. -/
theorem weighPiles_pile (uniform : Uniform P weight) (base : P t.unit t.scaling)
    (heads : ∀ p ∈ ps, P p.head.unit p.head.scaling) :
    weighPiles weight (pile t ps)
      = weighPiles weight ps + weight t.unit t.scaling * t.exponent := by
  induction ps with
  | nil => simp [pile]
  | cons p ps ih =>
    rw [pile]
    split
    next same =>
      rw [weighPiles_cons, weighPiles_cons, uniform _ _ (heads p List.mem_cons_self) base same,
        Int.mul_add]
      omega
    next =>
      rw [weighPiles_cons, weighPiles_cons, ih fun q mem => heads q (List.mem_cons_of_mem _ mem)]
      omega

theorem weighPiles_foldl (uniform : Uniform P weight) (bases : ∀ t ∈ ts, P t.unit t.scaling)
    (heads : ∀ p ∈ ps, P p.head.unit p.head.scaling) :
    weighPiles weight (ts.foldl (fun ps t => pile t ps) ps)
      = weighPiles weight ps + weigh weight ts := by
  induction ts generalizing ps with
  | nil => simp
  | cons t ts ih =>
    have base := bases t List.mem_cons_self
    have more : ∀ p ∈ pile t ps, P p.head.unit p.head.scaling := by
      intro p mem
      rcases mem_pile mem with same | ⟨q, inside, same⟩
      · rwa [same]
      · rw [← same]
        exact heads q inside
    rw [List.foldl_cons, ih (fun u mem => bases u (List.mem_cons_of_mem _ mem)) more,
      weighPiles_pile uniform base heads, weigh_cons]
    omega

/-- Piles that cancel weigh nothing. -/
theorem weigh_level (leveled : level ps = .ok ts) : weigh weight ts = weighPiles weight ps := by
  rw [terms_of_level leveled]
  clear leveled
  induction ps with
  | nil => rfl
  | cons p ps ih =>
    rw [weighPiles_cons, ← ih, List.filter_cons]
    split
    next => simp
    next shown =>
      have cancels : p.exponent = 0 := by simpa using shown
      rw [cancels, Int.mul_zero, Int.zero_add]

/-- The piles of visible terms weigh as much as the terms. -/
theorem weighPiles_piles (uniform : Uniform P weight)
    (sound : ∀ t ∈ ts, t.Sound P ∧ t.isScalar = false) :
    weighPiles weight (piles ts) = weigh weight ts := by
  have visible : ts.filter (fun t => !t.isScalar) = ts :=
    List.filter_eq_self.mpr fun t mem => by simp [(sound t mem).2]
  rw [piles, visible, weighPiles_foldl uniform (fun t mem => (sound t mem).1.base) (by simp)]
  simp

/-- Visible terms weigh as much as their product. -/
theorem weigh_ofTerms (uniform : Uniform P weight)
    (sound : ∀ t ∈ ts, t.Sound P ∧ t.isScalar = false) (made : ofTerms ts = .ok c) :
    weigh weight c.terms = weigh weight ts := by
  obtain ⟨us, leveled, rfl⟩ := map_eq_ok.mp made
  rw [weigh_level leveled, weighPiles_piles uniform sound]

end Compound

end Metrology
