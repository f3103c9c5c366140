import Metrology.Proofs.Unit.Dimension
import Metrology.Proofs.Unit.RoundTrip

/-!
# Products of powers

A unit is a product of powers of other units if it has the same value as they have together, for
every way of giving values to units. That is so for what multiplying and raising to powers makes of
them.
-/
namespace Metrology

variable {K : Type} [Field K]

namespace Compound

/-- The unit is a product of powers of other units, whatever the order of its terms: it has the
value of the product for every way of giving values to units. -/
def IsProduct (c : Compound K) (powers : List (Compound K × Int)) : Prop :=
  ∀ value : NamedUnit K → Option (Prefix K) → K, (∀ u p, value u p ≠ 0) →
    valueOf value c.terms = (powers.map fun p => valueOf value p.1.terms ^ p.2).prod

theorem isProduct_one : (one : Compound K).IsProduct [] := fun _ _ => rfl

variable {value : NamedUnit K → Option (Prefix K) → K} {c d p q : Compound K} {n : Int}
  {powers : List (Compound K × Int)}

theorem valueOf_append (ts us : List (Term K)) :
    valueOf value (ts ++ us) = valueOf value ts * valueOf value us := by
  simp [valueOf]

/-- Raising every term to a power raises the value to it. -/
theorem valueOf_map_mul (ts : List (Term K)) :
    valueOf value (ts.map fun t => ⟨t.unit, t.scaling, t.exponent * n⟩) = valueOf value ts ^ n := by
  induction ts with
  | nil => simp
  | cons t ts ih => rw [List.map_cons, valueOf_cons, valueOf_cons, ih, mul_zpow, zpow_mul]

/-- The power of a unit has the power of its value. -/
theorem Sound.valueOf_pow {P : NamedUnit K → Option (Prefix K) → Prop} (sound : d.Sound P)
    (power : d.pow n = .ok p) : valueOf value p.terms = valueOf value d.terms ^ n := by
  by_cases zero : n = 0
  · subst zero
    obtain rfl := Except.ok.inj power
    rw [zpow_zero]
    rfl
  · rw [sound.terms_of_pow zero power, valueOf_map_mul]

variable [Scalar K] {lex : Lexicon K}

/-- Multiplying by a power of a unit is what it says. -/
theorem IsProduct.mul_pow (tabled : lex.Tabled) (product : c.IsProduct powers)
    (soundC : c.Sound lex.Names) (soundD : d.Sound lex.Names) (power : d.pow n = .ok p)
    (made : c.mul p = .ok q) : q.IsProduct ((d, n) :: powers) := by
  intro value nonzero
  have sound := soundC.append (soundD.pow power)
  have names : ∀ u p, lex.Names u p → value u p ≠ 0 := fun u p _ => nonzero u p
  rw [valueOf_ofTerms_of_visible tabled.identifies names sound made, valueOf_append,
    product value nonzero, soundD.valueOf_pow power, List.map_cons, List.prod_cons,
    mul_comm]

end Compound

end Metrology
