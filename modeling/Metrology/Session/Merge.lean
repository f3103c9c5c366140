import Metrology.Session.Base

/-!
# Merging and conversion

Merging joins terms whose units have one dimension into the first of them, with the factor this
takes. To convert a unit, both sides are merged and stripped of their prefixes; if they still differ
they are looked up as nodes of the network, and failing that both are reduced to SI base units. A
unit of one term merges into itself, so merging, which converts single terms, does not come back to
itself.
-/
namespace Metrology.Session

variable {K : Type} [Scalar K]

/-- A way of merging: the factor from a unit to the merged unit, and that unit. -/
abbrev Merging (K : Type) := Compound K → Action (Session K) (Factor K × Compound K)

/-- The factor between merged units that differ: by their prefixes and by a route or, failing that,
by SI base units. -/
def connect (d : Dimension) (factor : Factor K) (src dest : Compound K) :
    Action (Session K) (Option (Factor K)) := do
  let scaled := factor.mul (.exact (← src.multiplier))
  let factor ← scaled.div (.exact (← dest.multiplier))
  let srcPlain ← src.withoutPrefixes
  let destPlain ← dest.withoutPrefixes
  match ← route d (srcPlain.write .ascii) (destPlain.write .ascii) with
  | some path => return some (factor.mul path.factor)
  | none =>
    let srcBase ← toBase srcPlain true
    let destBase ← toBase destPlain true
    match srcBase, destBase with
    | some s, some t => return some (factor.mul (← s.div t))
    | _, _ => return none

/-- The conversion between two units of a dimension, computed. -/
def compute (merge : Merging K) (d : Dimension) (src dest : Compound K) :
    Action (Session K) (Option (Conversion K)) := do
  let (srcFactor, srcMerged) ← merge src
  let (destFactor, destMerged) ← merge dest
  let factor ← srcFactor.div destFactor
  let factor? ←
    if ← srcMerged.same destMerged then pure (some factor)
    else connect d factor srcMerged destMerged
  return factor?.map fun factor => ⟨d.code, src.write .ascii, dest.write .ascii, factor⟩

/-- The conversion between two units of a dimension, which is remembered by their symbols. -/
def answer (merge : Merging K) (d : Dimension) (src dest : UnitRef K) :
    Action (Session K) (Option (Conversion K)) := do
  let srcUnit ← validate d src
  let destUnit ← validate d dest
  let key := (srcUnit.write .ascii, destUnit.write .ascii)
  match ((← get).chart d).answers.get? key with
  | some known => return known
  | none =>
    let found ← compute merge d srcUnit destUnit
    modify fun s =>
      let chart := s.chart d
      s.putChart d { chart with answers := chart.answers.put key found }
    return found

/-- The conversion between two terms without their exponents. -/
def termConversion (t head : Term K) : Action (Session K) (Option (Conversion K)) := do
  answer (fun unit => return (.one, unit)) t.unit.dimension
    (.term (← t.withoutExponent)) (.term (← head.withoutExponent))

/-- Terms that were joined: the first of them, and the sum of their exponents. -/
structure Group (K : Type) where
  head : Term K
  exponent : Int

/-- Joins a term to the first group of its dimension that it converts to. Gives the power of the
factor and the groups, or nothing if there is no such group. -/
def joinGroup (t : Term K) :
    List (Group K) → Action (Session K) (Option (Factor K × List (Group K)))
  | [] => return none
  | g :: rest => do
    let conversion ←
      if g.head.unit.dimension = t.unit.dimension then termConversion t g.head else pure none
    match conversion with
    | some c =>
      let power ← c.factor.pow t.exponent
      return some (power, { g with exponent := g.exponent + t.exponent } :: rest)
    | none => return (← joinGroup t rest).map fun (factor, groups) => (factor, g :: groups)

/-- Sorts terms into groups, multiplying up the factors. -/
def groupTerms (factor : Factor K) (groups : List (Group K)) :
    List (Term K) → Action (Session K) (Factor K × List (Group K))
  | [] => return (factor, groups)
  | t :: rest => do
    match ← joinGroup t groups with
    | some (power, joined) => groupTerms (factor.mul power) joined rest
    | none => groupTerms factor (groups ++ [⟨t, t.exponent⟩]) rest

/-- Merges the terms of a unit. Groups whose exponents cancel leave no term. -/
def mergeFactor : Merging K := fun unit => do
  let (factor, groups) ← groupTerms .one [] unit.terms
  let terms ← (groups.filter fun g => g.exponent ≠ 0).mapM fun g => g.head.withExponent g.exponent
  return (factor, ← Compound.ofTerms terms)

end Metrology.Session
