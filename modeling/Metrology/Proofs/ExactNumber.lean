import Mathlib.Algebra.Field.Rat
import Mathlib.Algebra.Order.Ring.Unbundled.Rat
import Mathlib.Tactic.Ring
import Metrology.Conversion

/-!
# Exact numbers

Numbers whose operations are those of an ordered field: nothing is rounded and no power is too
large. The laws of conversion are stated for them. What reading a number costs in accuracy is left
open.
-/
namespace Metrology

class Scalar.Exact (K : Type) [Field K] [LinearOrder K] [Scalar K] : Prop where
  zero_eq : (Scalar.zero : K) = 0
  one_eq : (Scalar.one : K) = 1
  add_eq (x y : K) : Scalar.add x y = x + y
  mul_eq (x y : K) : Scalar.mul x y = x * y
  div_eq (x y : K) : Scalar.div x y = x / y
  pow_eq {x : K} {n : Int} : x ≠ 0 ∨ 0 ≤ n → Scalar.pow x n = .ok (x ^ n)
  pow_zero {n : Int} : n < 0 → Scalar.pow (0 : K) n = .error .zeroToNegativePower
  ofDecimal_eq (d : Decimal) : (Scalar.ofDecimal d : K) = d.digits * 10 ^ d.exponent
  same_iff (x y : K) : Scalar.same x y = true ↔ x = y
  isZero_iff (x : K) : Scalar.isZero x = true ↔ x = 0
  isNotPositive_iff (x : K) : Scalar.isNotPositive x = true ↔ x ≤ 0

/-- Rational numbers, which are read without error. -/
instance : Scalar ℚ where
  zero := 0
  one := 1
  add := (· + ·)
  mul := (· * ·)
  div := (· / ·)
  pow x n := if x = 0 ∧ n < 0 then .error .zeroToNegativePower else .ok (x ^ n)
  ofDecimal d := d.digits * 10 ^ d.exponent
  same x y := x = y
  isZero x := x = 0
  isNotPositive x := x ≤ 0
  readingError _ := 0

instance : Scalar.Exact ℚ where
  zero_eq := rfl
  one_eq := rfl
  add_eq _ _ := rfl
  mul_eq _ _ := rfl
  div_eq _ _ := rfl
  pow_eq h := if_neg fun bad => h.elim (· bad.1) (Int.not_le.mpr bad.2)
  pow_zero h := if_pos ⟨rfl, h⟩
  ofDecimal_eq _ := rfl
  same_iff _ _ := decide_eq_true_iff
  isZero_iff _ := decide_eq_true_iff
  isNotPositive_iff _ := decide_eq_true_iff

namespace Factor

variable {K : Type} [Field K] [LinearOrder K] [Scalar K] [Scalar.Exact K]

theorem one_eq : (one : Factor K) = ⟨1, 0⟩ := by
  simp only [one, exact, Scalar.Exact.one_eq, Scalar.Exact.zero_eq]

theorem mul_eq (f g : Factor K) : f.mul g = ⟨f.value * g.value, f.error + g.error⟩ := by
  simp only [mul, Scalar.Exact.mul_eq, Scalar.Exact.add_eq]

theorem div_eq {f g : Factor K} (divisor : g.value ≠ 0) :
    f.div g = .ok ⟨f.value / g.value, f.error + g.error⟩ := by
  have nonzero : ¬ Scalar.isZero g.value = true := by rwa [Scalar.Exact.isZero_iff]
  simp only [div, nonzero, if_false, Scalar.Exact.div_eq, Scalar.Exact.add_eq, Bool.false_eq_true]

theorem inv_eq {f : Factor K} (divisor : f.value ≠ 0) : f.inv = .ok ⟨f.value⁻¹, f.error⟩ := by
  have nonzero : ¬ Scalar.isZero f.value = true := by rwa [Scalar.Exact.isZero_iff]
  simp only [inv, nonzero, if_false, Scalar.Exact.div_eq, Scalar.Exact.one_eq, one_div,
    Bool.false_eq_true]

@[simp] theorem value_one : (one : Factor K).value = 1 := by rw [one_eq]

@[simp] theorem value_mul (f g : Factor K) : (f.mul g).value = f.value * g.value := by rw [mul_eq]

/-- A quotient that is given has a divisor. -/
theorem value_of_div {f g q : Factor K} (given : f.div g = .ok q) :
    g.value ≠ 0 ∧ q.value = f.value / g.value := by
  have divisor : g.value ≠ 0 := by
    intro zero
    rw [← Scalar.Exact.isZero_iff] at zero
    simp [div, zero] at given
  rw [div_eq divisor] at given
  cases given
  exact ⟨divisor, rfl⟩

/-- A power that is given is the power of the value. -/
theorem value_of_pow {f p : Factor K} {n : Int} (given : f.pow n = .ok p) :
    p.value = f.value ^ n := by
  unfold pow at given
  split at given
  next zero =>
    cases given
    rw [one_eq, zero, zpow_zero]
  next nonzero =>
    by_cases base : f.value ≠ 0 ∨ 0 ≤ n
    · rw [Scalar.Exact.pow_eq base] at given
      cases given
      rfl
    · have vanishes : f.value = 0 := by
        by_contra other
        exact base (.inl other)
      have negative : n < 0 := by
        by_contra other
        exact base (.inr (Int.not_lt.mp other))
      rw [vanishes, Scalar.Exact.pow_zero negative] at given
      cases given

end Factor

/-! Two conversions that share a unit compose, unless a divisor is zero. -/
namespace Conversion

variable {K : Type} [Field K] [LinearOrder K] [Scalar K] [Scalar.Exact K] {c d : Conversion K}

theorem invert_eq (nonzero : c.factor.value ≠ 0) :
    c.invert = .ok ⟨c.dimension, c.dest, c.src, ⟨c.factor.value⁻¹, c.factor.error⟩⟩ := by
  rw [invert, Factor.inv_eq nonzero]
  rfl

theorem chain_eq (shared : c.dest = d.src) :
    c.chain d = .ok ⟨c.dimension, c.src, d.dest,
      ⟨c.factor.value * d.factor.value, c.factor.error + d.factor.error⟩⟩ := by
  rw [chain, share, if_pos shared, Factor.mul_eq]
  rfl

theorem diverge_eq (shared : c.src = d.src) (nonzero : c.factor.value ≠ 0) :
    c.diverge d = .ok ⟨c.dimension, c.dest, d.dest,
      ⟨d.factor.value / c.factor.value, d.factor.error + c.factor.error⟩⟩ := by
  rw [diverge, share, if_pos shared, Factor.div_eq nonzero]
  rfl

theorem converge_eq (shared : c.dest = d.dest) (nonzero : d.factor.value ≠ 0) :
    c.converge d = .ok ⟨c.dimension, c.src, d.src,
      ⟨c.factor.value / d.factor.value, c.factor.error + d.factor.error⟩⟩ := by
  rw [converge, share, if_pos shared, Factor.div_eq nonzero]
  rfl

theorem oppose_eq (shared : c.src = d.dest) (nonzero : c.factor.value ≠ 0)
    (nonzero' : d.factor.value ≠ 0) :
    c.oppose d = .ok ⟨c.dimension, c.dest, d.src,
      ⟨(c.factor.value * d.factor.value)⁻¹, c.factor.error + d.factor.error⟩⟩ := by
  have product : (c.factor.mul d.factor).value ≠ 0 := by
    rw [Factor.mul_eq]
    exact mul_ne_zero nonzero nonzero'
  rw [oppose, share, if_pos shared, Factor.inv_eq product, Factor.mul_eq]
  rfl

end Conversion

end Metrology
