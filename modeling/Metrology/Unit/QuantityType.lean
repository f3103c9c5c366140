import Metrology.Dimension.Code
import Metrology.Register

/-!
# Quantity types

A quantity type names a dimension, such as force for `MLT-2`. A dimension has one quantity type at
most.
-/
namespace Metrology

structure QuantityType where
  name : String
  dimension : Dimension
  deriving DecidableEq, Repr

structure QuantityTypes where
  byDimension : Register Dimension QuantityType
  deriving DecidableEq, Repr

namespace QuantityTypes

def empty : QuantityTypes := ⟨.empty⟩

def all (ts : QuantityTypes) : List QuantityType := ts.byDimension.values

def find? (ts : QuantityTypes) (d : Dimension) : Option QuantityType := ts.byDimension.get? d

def findByName? (ts : QuantityTypes) (name : String) : Option QuantityType :=
  ts.all.find? fun t => t.name = name

/-- Adds a quantity type, unless its dimension has a different one. -/
def add (ts : QuantityTypes) (t : QuantityType) : Except Error QuantityTypes :=
  match ts.find? t.dimension with
  | some owner => if owner = t then .ok ts else .error (.dimensionTaken t.dimension.code owner.name)
  | none => .ok ⟨ts.byDimension.put t.dimension t⟩

end QuantityTypes

end Metrology
