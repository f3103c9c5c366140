import Metrology.Factor

/-!
# Conversions

A conversion from `src` to `dest` says that one `src` is `factor` times one `dest`. Two conversions
that share a unit compose in four ways, according to which ends they share.
-/
namespace Metrology

structure Conversion (K : Type) where
  /-- code of the dimension that both units have -/
  dimension : String
  src : String
  dest : String
  factor : Factor K
  deriving DecidableEq, Repr

namespace Conversion

variable {K : Type} [Scalar K]

def invert (c : Conversion K) : Except Error (Conversion K) :=
  c.factor.inv.map fun factor => ⟨c.dimension, c.dest, c.src, factor⟩

/-- Refuses two ends that are not the same unit. -/
def share (first second : String) : Except Error Unit :=
  if first = second then .ok () else .error (.noSharedUnit first second)

/-- From `A → M` and `M → B`. -/
def chain (c d : Conversion K) : Except Error (Conversion K) := do
  share c.dest d.src
  return ⟨c.dimension, c.src, d.dest, c.factor.mul d.factor⟩

/-- From `M → A` and `M → B`. -/
def diverge (c d : Conversion K) : Except Error (Conversion K) := do
  share c.src d.src
  return ⟨c.dimension, c.dest, d.dest, ← d.factor.div c.factor⟩

/-- From `A → M` and `B → M`. -/
def converge (c d : Conversion K) : Except Error (Conversion K) := do
  share c.dest d.dest
  return ⟨c.dimension, c.src, d.src, ← c.factor.div d.factor⟩

/-- From `M → A` and `B → M`. -/
def oppose (c d : Conversion K) : Except Error (Conversion K) := do
  share c.src d.dest
  return ⟨c.dimension, c.dest, d.src, ← (c.factor.mul d.factor).inv⟩

end Conversion

end Metrology
