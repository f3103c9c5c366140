import Metrology.Proofs.Ending
import Metrology.Proofs.ExactNumber

/-!
# Numbers within bounds

What conversions do with numbers fails only where a number is divided by zero or raised to a power
that does not exist or is too large. Numbers that the operations stay among are called good, the
errors they can fail with are faults. Exact numbers other than zero are good without any fault.
-/
namespace Metrology

variable {K : Type}

/-- Decimals other than zero are good numbers, and the operations lead from good numbers to good
numbers or to faults. -/
structure Scalar.Within [Scalar K] (good : K → Prop) (fault : Error → Prop) : Prop where
  one : good (Scalar.one : K)
  mul : ∀ x y, good x → good y → good (Scalar.mul x y)
  div : ∀ x y, good x → good y → Scalar.isZero y = false → good (Scalar.div x y)
  isZero : ∀ x, good x → Scalar.isZero x = true → fault .divisionByZero ∧ fault .inversionOfZero
  pow : ∀ x n, good x → Brings good fault (Scalar.pow x n)
  decimal : ∀ d : Decimal, d.digits ≠ 0 → good (Scalar.ofDecimal d)

/-- Nothing is asked of numbers and errors. -/
theorem Scalar.Within.lax [Scalar K] : Scalar.Within (fun _ : K => True) fun _ => True where
  one := trivial
  mul _ _ _ _ := trivial
  div _ _ _ _ _ := trivial
  isZero _ _ _ := ⟨trivial, trivial⟩
  pow _ _ _ := .of_given (fun _ _ => trivial) fun _ _ => trivial
  decimal _ _ := trivial

/-- More errors may be faults. -/
theorem Scalar.Within.weaken [Scalar K] {good : K → Prop} {fault fault' : Error → Prop}
    (within : Scalar.Within good fault) (implies : ∀ e, fault e → fault' e) :
    Scalar.Within good fault' where
  one := within.one
  mul := within.mul
  div := within.div
  isZero x own zero := (within.isZero x own zero).imp (implies _) (implies _)
  pow x n own := (within.pow x n own).weaken (fun _ power => power) implies
  decimal := within.decimal

/-- Exact numbers other than zero are divided and raised to powers without fault. -/
theorem Scalar.Within.exact [Field K] [LinearOrder K] [IsStrictOrderedRing K] [Scalar K]
    [Scalar.Exact K] :
    Scalar.Within (fun x : K => x ≠ 0) fun _ => False where
  one := by
    rw [Scalar.Exact.one_eq]
    exact one_ne_zero
  mul x y nonzero nonzero' := by
    rw [Scalar.Exact.mul_eq]
    exact mul_ne_zero nonzero nonzero'
  div x y nonzero nonzero' _ := by
    rw [Scalar.Exact.div_eq]
    exact div_ne_zero nonzero nonzero'
  isZero x nonzero zero := absurd ((Scalar.Exact.isZero_iff x).mp zero) nonzero
  pow x n nonzero := by
    rw [Scalar.Exact.pow_eq (.inl nonzero)]
    exact zpow_ne_zero n nonzero
  decimal d digits := by
    rw [Scalar.Exact.ofDecimal_eq]
    exact mul_ne_zero (Nat.cast_ne_zero.mpr digits) (zpow_ne_zero _ (by norm_num))

/-- What goes wrong with numbers. -/
def Error.isArithmetic : Error → Bool
  | divisionByZero | inversionOfZero | zeroToNegativePower | powerTooLarge => true
  | _ => false

/-- Doubles fail with these errors only. -/
theorem Scalar.Within.float : Scalar.Within (fun _ : Float => True) fun e => e.isArithmetic where
  one := trivial
  mul _ _ _ _ := trivial
  div _ _ _ _ _ := trivial
  isZero _ _ _ := ⟨rfl, rfl⟩
  pow x n _ := by
    show Brings _ _ (floatPow x n)
    unfold floatPow
    dsimp only
    repeat' split
    all_goals simp [Brings, Error.isArithmetic]
  decimal _ _ := trivial

namespace Factor

variable [Scalar K] {good : K → Prop} {fault : Error → Prop} (within : Scalar.Within good fault)
  {f g : Factor K}
include within

theorem good_one : good (one : Factor K).value := within.one

theorem good_mul (first : good f.value) (second : good g.value) : good (f.mul g).value :=
  within.mul _ _ first second

theorem brings_div (first : good f.value) (second : good g.value) :
    Brings (fun q => good q.value) fault (f.div g) := by
  unfold div
  split
  next zero => exact (within.isZero _ second zero).1
  next nonzero => exact within.div _ _ first second (by simpa using nonzero)

theorem brings_inv (own : good f.value) : Brings (fun q => good q.value) fault f.inv := by
  unfold inv
  split
  next zero => exact (within.isZero _ own zero).2
  next nonzero => exact within.div _ _ within.one own (by simpa using nonzero)

theorem brings_pow (own : good f.value) (n : Int) :
    Brings (fun p => good p.value) fault (f.pow n) := by
  unfold pow
  split
  next => exact within.one
  next => exact (within.pow _ _ own).map fun _ power => power

end Factor

end Metrology
