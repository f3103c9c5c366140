import Metrology.Scalar

/-!
# Conversion factors

A factor is a number with a bound on its relative error. Products and quotients add the relative
errors, a power multiplies it by the size of the exponent, a reciprocal keeps it.
-/
namespace Metrology

structure Factor (K : Type) where
  value : K
  error : K
  deriving DecidableEq, Repr

namespace Factor

variable {K : Type} [Scalar K]

def exact (x : K) : Factor K := ⟨x, Scalar.zero⟩

/-- A number as it was read. -/
def read (x : K) : Factor K := ⟨x, Scalar.readingError x⟩

@[simp] theorem value_exact (x : K) : (exact x).value = x := rfl

@[simp] theorem value_read (x : K) : (read x).value = x := rfl

def one : Factor K := exact Scalar.one

def isExact (f : Factor K) : Bool := Scalar.isZero f.error

def mul (f g : Factor K) : Factor K := ⟨Scalar.mul f.value g.value, Scalar.add f.error g.error⟩

def div (f g : Factor K) : Except Error (Factor K) :=
  if Scalar.isZero g.value then .error .divisionByZero
  else .ok ⟨Scalar.div f.value g.value, Scalar.add f.error g.error⟩

def inv (f : Factor K) : Except Error (Factor K) :=
  if Scalar.isZero f.value then .error .inversionOfZero
  else .ok ⟨Scalar.div Scalar.one f.value, f.error⟩

def pow (f : Factor K) (n : Int) : Except Error (Factor K) :=
  if n = 0 then .ok one
  else (Scalar.pow f.value n).map fun value => ⟨value, Scalar.mul f.error (Scalar.ofNat n.natAbs)⟩

end Factor

end Metrology
