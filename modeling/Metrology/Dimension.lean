import Metrology.Axis
import Metrology.Error

/-!
# Dimensions

A dimension is a vector of integer exponents, one per axis. Products add exponents and powers
multiply them; a dimension is in range when no exponent exceeds `maxExponent` in size.
-/
namespace Metrology

def maxExponent : Nat := 9

structure Dimension where
  mass : Int
  length : Int
  angle : Int
  data : Int
  currency : Int
  time : Int
  current : Int
  temperature : Int
  substance : Int
  luminosity : Int
  deriving DecidableEq, Repr

namespace Dimension

def exponent (d : Dimension) : Axis → Int
  | .mass => d.mass
  | .length => d.length
  | .angle => d.angle
  | .data => d.data
  | .currency => d.currency
  | .time => d.time
  | .current => d.current
  | .temperature => d.temperature
  | .substance => d.substance
  | .luminosity => d.luminosity

def ofFn (f : Axis → Int) : Dimension :=
  ⟨f .mass, f .length, f .angle, f .data, f .currency, f .time, f .current,
    f .temperature, f .substance, f .luminosity⟩

@[simp] theorem exponent_ofFn (f : Axis → Int) (a : Axis) : (ofFn f).exponent a = f a := by
  cases a <;> rfl

theorem ext_exponent {d e : Dimension} (h : ∀ a, d.exponent a = e.exponent a) : d = e := by
  cases d
  cases e
  have := h .mass
  have := h .length
  have := h .angle
  have := h .data
  have := h .currency
  have := h .time
  have := h .current
  have := h .temperature
  have := h .substance
  have := h .luminosity
  simp_all [exponent]

theorem ofFn_exponent (d : Dimension) : ofFn d.exponent = d := rfl

/-- The dimension of pure numbers. -/
def dimensionless : Dimension := ofFn fun _ => 0

/-- One axis to the first power. -/
def ofAxis (a : Axis) : Dimension := ofFn fun b => if b = a then 1 else 0

def mul (d e : Dimension) : Dimension := ofFn fun a => d.exponent a + e.exponent a

def pow (d : Dimension) (n : Int) : Dimension := ofFn fun a => d.exponent a * n

@[simp] theorem exponent_dimensionless (a : Axis) : dimensionless.exponent a = 0 :=
  exponent_ofFn _ a

@[simp] theorem exponent_mul (d e : Dimension) (a : Axis) :
    (mul d e).exponent a = d.exponent a + e.exponent a :=
  exponent_ofFn _ a

@[simp] theorem exponent_pow (d : Dimension) (n : Int) (a : Axis) :
    (pow d n).exponent a = d.exponent a * n :=
  exponent_ofFn _ a

def InRange (d : Dimension) : Prop := ∀ a ∈ Axis.all, (d.exponent a).natAbs ≤ maxExponent

instance (d : Dimension) : Decidable d.InRange := inferInstanceAs (Decidable (∀ a ∈ Axis.all, _))

/-- The axis whose exponent is reported: of those out of range the first in priority. -/
def firstOutOfRange? (d : Dimension) : Option Axis :=
  Axis.all.find? fun a => maxExponent < (d.exponent a).natAbs

/-- Passes a dimension in range, refuses any other. -/
def checked (d : Dimension) : Except Error Dimension :=
  match d.firstOutOfRange? with
  | none => .ok d
  | some a => .error (.dimensionOutOfRange (d.exponent a) a.letter)

/-- The axis of a base dimension, one to the first power with no other beside it. -/
def baseAxis? (d : Dimension) : Option Axis := Axis.all.find? fun a => d = ofAxis a

def IsBase (d : Dimension) : Prop := ∃ a, d = ofAxis a

theorem firstOutOfRange?_eq_none {d : Dimension} : d.firstOutOfRange? = none ↔ d.InRange := by
  simp [firstOutOfRange?, InRange]

theorem checked_eq_ok_iff {d e : Dimension} : d.checked = .ok e ↔ d = e ∧ d.InRange := by
  unfold checked
  split
  · rename_i h
    simp [firstOutOfRange?_eq_none.mp h]
  · rename_i a h
    have : ¬ d.InRange := fun hr => by simp [firstOutOfRange?_eq_none.mpr hr] at h
    simp [this]

theorem baseAxis?_eq_some {d : Dimension} {a : Axis} (h : d.baseAxis? = some a) : d = ofAxis a := by
  simpa using List.find?_some h

end Dimension

end Metrology
