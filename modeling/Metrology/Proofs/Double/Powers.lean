import Metrology.Proofs.Arithmetic
import Metrology.Proofs.Double.Magnitude

/-!
# Doubles and their powers

Doubles are raised to powers by a function of the platform's library. What comes of it can be told
from what the library promises: powers of numbers without a sign have none, and a power multiplies
the bits that a number is away from 1, up to rounding.
-/
namespace Metrology

open Double

/-- Doubles, with a function that raises them to powers. -/
def DoublesBy (_ : Float → Int → Float) : Type := Float

namespace DoublesBy

variable {raise : Float → Int → Float}

def toFloat (x : DoublesBy raise) : Float := x

/-- Integer powers as `floatPow` gives them, with any function in place of the library's. -/
def pow (raise : Float → Int → Float) (x : Float) (n : Int) : Except Error Float :=
  let e := Float.ofInt n
  if e.isInf then .error .powerTooLarge
  else if n = 0 || x == 1.0 then .ok 1.0
  else if n = 1 then .ok x
  else if x == 0.0 && n < 0 then .error .zeroToNegativePower
  else
    let power := raise x n
    if power.isInf && x.isFinite then .error .powerTooLarge else .ok power

instance : Scalar (DoublesBy raise) where
  zero := (Scalar.zero : Float)
  one := (Scalar.one : Float)
  add := (Scalar.add : Float → Float → Float)
  mul := (Scalar.mul : Float → Float → Float)
  div := (Scalar.div : Float → Float → Float)
  pow := pow raise
  ofDecimal := (Scalar.ofDecimal : Decimal → Float)
  same := (Scalar.same : Float → Float → Bool)
  isZero := (Scalar.isZero : Float → Bool)
  isNotPositive := (Scalar.isNotPositive : Float → Bool)
  readingError := (Scalar.readingError : Float → Float)

/-- With the library's function they are the doubles that answers are computed with. -/
theorem scalar_eq_float :
    (inferInstance : Scalar (DoublesBy fun x n => Float.pow x (Float.ofInt n))) =
      (inferInstance : Scalar Float) := rfl

theorem not_le_zero {x : DoublesBy raise} (positive : Scalar.isNotPositive x = false) :
    ¬ x.toFloat ≤ 0 :=
  of_decide_eq_false positive

/-- What the library promises of powers: they have no sign where the number has none, and are as
many times as far away from 1 as the exponent says, give or take one bit. -/
structure Promised (raise : Float → Int → Float) : Prop where
  unsigned : ∀ x n, Unsigned x → Unsigned (raise x n)
  ofSize : ∀ b x n, OfSize b x → b * n.natAbs + 1 ≤ 1022 → OfSize (b * n.natAbs + 1) (raise x n)

theorem ofSize_one : OfSize 0 1.0 := by decide +kernel

/-- The product of as many equal numbers. -/
def product (x : Float) : ℕ → Float
  | 0 => 1.0
  | n + 1 => product x n * x

/-- Powers by multiplying again and again. -/
def repeated (x : Float) (n : Int) : Float :=
  if 0 ≤ n then product x n.natAbs else 1.0 / product x n.natAbs

theorem ofSize_product {b : ℕ} {x : Float} (own : OfSize b x) {n : ℕ} (range : b * n ≤ 1022) :
    OfSize (b * n) (product x n) := by
  induction n with
  | zero => exact ofSize_one
  | succ n ih => exact (ih (by rw [mul_add_one] at range; omega)).mul own range

theorem unsigned_product {x : Float} (own : Unsigned x) (n : ℕ) : Unsigned (product x n) := by
  induction n with
  | zero => exact ofSize_one.unsigned
  | succ n ih => exact ih.mul own

/-- Multiplying again and again keeps the promise. -/
theorem promised_repeated : Promised repeated where
  unsigned x n own := by
    have whole := unsigned_product own n.natAbs
    unfold repeated
    split
    next => exact whole
    next => exact ofSize_one.unsigned.div whole
  ofSize b x n own range := by
    have whole := ofSize_product own (n := n.natAbs) (by omega)
    unfold repeated
    split
    next => exact whole.mono (Nat.le_succ _)
    next => exact (ofSize_one.div whole (by omega)).mono (by omega)

theorem pow_cases {x p : Float} {n : Int} (given : pow raise x n = .ok p) :
    p = 1.0 ∨ n = 1 ∧ p = x ∨ p = raise x n := by
  unfold pow at given
  dsimp only at given
  split at given
  next => cases given
  next =>
    split at given
    next => exact .inl (Except.ok.inj given).symm
    next =>
      split at given
      next first => exact .inr (.inl ⟨first, (Except.ok.inj given).symm⟩)
      next =>
        split at given
        next => cases given
        next =>
          split at given
          next => cases given
          next => exact .inr (.inr (Except.ok.inj given).symm)

/-- A power of 1 is 1. -/
theorem pow_one {p : Float} {n : Int} (given : pow raise 1.0 n = .ok p) : p = 1.0 := by
  have same : ((1.0 : Float) == 1.0) = true := by decide +kernel
  unfold pow at given
  dsimp only at given
  split at given
  next => cases given
  next =>
    rw [same, Bool.or_true, if_pos rfl] at given
    exact (Except.ok.inj given).symm

/-- A decimal has no sign. -/
theorem unsigned_toFloat (d : Decimal) : Unsigned d.toFloat := by
  unfold Decimal.toFloat
  dsimp only
  split
  next => decide +kernel
  next =>
    split
    next => decide +kernel
    next => exact unsigned_ofScientific _ _ _

variable (promised : Promised raise)
include promised

/-- No sign comes about, whatever goes wrong. -/
theorem within_unsigned :
    Scalar.Within (K := DoublesBy raise) (fun x => Unsigned x) fun _ => True where
  one := ofSize_one.unsigned
  mul _ _ first second := first.mul second
  div _ _ first second _ := first.div second
  isZero _ _ _ := ⟨trivial, trivial⟩
  pow x n own := by
    refine .of_given (fun p given => ?_) fun _ _ => trivial
    rcases pow_cases given with rfl | ⟨_, rfl⟩ | rfl
    · exact ofSize_one.unsigned
    · exact own
    · exact promised.unsigned x n own
  decimal d _ := unsigned_toFloat d

/-- A power is no further away from 1 than the exponent says, give or take one bit. -/
theorem ofSize_pow {b : ℕ} {x p : Float} {n : Int} (given : pow raise x n = .ok p)
    (own : OfSize b x) (range : b * n.natAbs + 1 ≤ 1022) : OfSize (b * n.natAbs + 1) p := by
  rcases pow_cases given with rfl | ⟨rfl, rfl⟩ | rfl
  · exact ofSize_one.mono (Nat.zero_le _)
  · exact own.mono (by simp)
  · exact promised.ofSize b x n own range

end DoublesBy

end Metrology
