import Metrology.Proofs.Session.Echo
import Metrology.Proofs.Session.Expanding

/-!
# Calls among the functions that resolve units

Converting calls merging and reduction, merging calls converting, and reduction calls itself. Here the
bodies of these functions stand with the functions they call left open, so that it can be said which
calls a call makes, and calls can be nested to any depth above something else.
-/
namespace Metrology

variable {K : Type} [Scalar K]

namespace Session

/-! ### Bodies -/

/-- The factor between merged units that differ, where units are reduced by `toBase`. -/
def connectBy (toBase : Compound K → Action (Session K) (Option (Factor K))) (d : Dimension)
    (factor : Factor K) (src dest : Compound K) : Action (Session K) (Option (Factor K)) := do
  let scaled := factor.mul (.exact (← src.multiplier))
  let factor ← scaled.div (.exact (← dest.multiplier))
  let srcPlain ← src.withoutPrefixes
  let destPlain ← dest.withoutPrefixes
  match ← route d (srcPlain.write .ascii) (destPlain.write .ascii) with
  | some path => return some (factor.mul path.factor)
  | none =>
    let srcBase ← toBase srcPlain
    let destBase ← toBase destPlain
    match srcBase, destBase with
    | some s, some t => return some (factor.mul (← s.div t))
    | _, _ => return none

/-- The conversion between two units of a dimension, where units are merged by `merge`. -/
def computeBy (merge : Merging K) (toBase : Compound K → Action (Session K) (Option (Factor K)))
    (d : Dimension) (src dest : Compound K) : Action (Session K) (Option (Conversion K)) := do
  let (srcFactor, srcMerged) ← merge src
  let (destFactor, destMerged) ← merge dest
  let factor ← srcFactor.div destFactor
  let factor? ←
    if ← srcMerged.same destMerged then pure (some factor)
    else connectBy toBase d factor srcMerged destMerged
  return factor?.map fun factor => ⟨d.code, src.write .ascii, dest.write .ascii, factor⟩

/-- The conversion between two units of a dimension, computed by `compute` if it is not known. -/
def answerBy (compute : Compound K → Compound K → Action (Session K) (Option (Conversion K)))
    (d : Dimension) (src dest : UnitRef K) : Action (Session K) (Option (Conversion K)) := do
  let srcUnit ← validate d src
  let destUnit ← validate d dest
  let key := (srcUnit.write .ascii, destUnit.write .ascii)
  match ((← get).chart d).answers.get? key with
  | some known => return known
  | none =>
    let found ← compute srcUnit destUnit
    modify fun s =>
      let chart := s.chart d
      s.putChart d { chart with answers := chart.answers.put key found }
    return found

/-- A way of converting units of a dimension. -/
abbrev Converter (K : Type) :=
  Dimension → UnitRef K → UnitRef K → Action (Session K) (Option (Conversion K))

/-- The conversion between two terms without their exponents. -/
def termConversionBy (convert : Converter K) (t head : Term K) :
    Action (Session K) (Option (Conversion K)) := do
  convert t.unit.dimension (.term (← t.withoutExponent)) (.term (← head.withoutExponent))

/-- Joins a term to the head group by the conversion that was found, otherwise as `later` does. -/
def joinOr (t : Term K) (g : Group K) (rest : List (Group K))
    (later : Action (Session K) (Option (Factor K × List (Group K)))) :
    Option (Conversion K) → Action (Session K) (Option (Factor K × List (Group K)))
  | some c => do
    let power ← c.factor.pow t.exponent
    return some (power, { g with exponent := g.exponent + t.exponent } :: rest)
  | none => do return (← later).map fun (factor, groups) => (factor, g :: groups)

/-- Joins a term to the first group of its dimension that `convert` converts it to. -/
def joinBy (convert : Converter K) (t : Term K) :
    List (Group K) → Action (Session K) (Option (Factor K × List (Group K)))
  | [] => return none
  | g :: rest =>
    if g.head.unit.dimension = t.unit.dimension then do
      joinOr t g rest (joinBy convert t rest) (← termConversionBy convert t g.head)
    else joinOr t g rest (joinBy convert t rest) none

/-- Sorts terms into groups, multiplying up the factors. -/
def groupBy (convert : Converter K) (factor : Factor K) (groups : List (Group K)) :
    List (Term K) → Action (Session K) (Factor K × List (Group K))
  | [] => return (factor, groups)
  | t :: rest => do
    match ← joinBy convert t groups with
    | some (power, joined) => groupBy convert (factor.mul power) joined rest
    | none => groupBy convert factor (groups ++ [⟨t, t.exponent⟩]) rest

/-- Merges the terms of a unit, where terms are converted by `convert`. -/
def mergeBy (convert : Converter K) : Merging K := fun unit => do
  let (factor, groups) ← groupBy convert .one [] unit.terms
  let terms ← (groups.filter fun g => g.exponent ≠ 0).mapM fun g => g.head.withExponent g.exponent
  return (factor, ← Compound.ofTerms terms)

/-- A way of reducing units to SI base units, with bridging or without. -/
abbrev Reducer (K : Type) := Bool → NamedUnit K → Action (Session K) (Option (Factor K))

/-- The factor of a unit to SI base units, found if it is not known, where further units are reduced by
`reduce`. -/
def recallBy (reduce : Reducer K) : Reducer K := fun bridging unit => do
  match (← get).baseFactors.get? (unit.asciiSymbol, bridging) with
  | some known => return known
  | none =>
    let found ← factorBy reduce bridging unit
    modify fun s => { s with baseFactors := s.baseFactors.put (unit.asciiSymbol, bridging) found }
    return found

/-! ### Functions that call each other -/

/-- The three functions that resolve units. -/
structure Resolver (K : Type) where
  convert : Converter K
  merge : Merging K
  reduce : Reducer K

namespace Resolver

/-- The factor of a compound unit to the matching product of SI base units. -/
def toBase (r : Resolver K) (unit : Compound K) (bridging : Bool) :
    Action (Session K) (Option (Factor K)) :=
  reduceTerms (r.reduce bridging) .one unit.terms

/-- The functions one level up: each does what it does, calling the functions below. -/
def step (r : Resolver K) : Resolver K where
  convert d := answerBy (computeBy r.merge (r.toBase · true) d) d
  merge := mergeBy r.convert
  reduce := recallBy r.reduce

/-- The functions with calls nested to a depth, below which there is something else. -/
def nested (bottom : Resolver K) : Nat → Resolver K
  | 0 => bottom
  | n + 1 => (bottom.nested n).step

/-- The conversion between two units, of the dimension of the first. -/
def conversion (r : Resolver K) (src dest : UnitRef K) :
    Action (Session K) (Option (Conversion K)) := do
  let srcUnit ← parse src
  r.convert (← srcUnit.dimension) (.compound srcUnit) dest

/-- A value with its unit after merging. -/
def mergeValue (r : Resolver K) (value : K) (ref : UnitRef K) :
    Action (Session K) (K × Compound K) := do
  let (factor, merged) ← r.merge (← parse ref)
  return (Scalar.mul value factor.value, merged)

/-- A value with its unit after its units were expanded by one level and the result merged. -/
def expand (r : Resolver K) (value : K) (ref : UnitRef K) :
    Action (Session K) (K × Compound K) := do
  let unit ← parse ref
  let (value, terms) ← expandTerms (← get).lexicon value unit.terms
  r.mergeValue value (.compound (← Compound.ofTerms terms))

/-- The functions of the session. -/
def own : Resolver K where
  convert := conversionIn
  merge := mergeFactor
  reduce bridging unit := do reduceUnit (← get).reductionDepth bridging unit

end Resolver

/-! ### The functions of the session by their bodies -/

theorem conversionIn_eq (d : Dimension) :
    (conversionIn d : UnitRef K → UnitRef K → Action (Session K) _) =
      answerBy (computeBy mergeFactor (toBase · true) d) d := rfl

theorem joinGroup_eq (t : Term K) (gs : List (Group K)) :
    joinGroup t gs = joinBy conversionIn t gs := by
  induction gs with
  | nil => rfl
  | cons g rest ih =>
    have head (conversion : Option (Conversion K)) : joinHead t g rest conversion =
        joinOr t g rest (joinBy conversionIn t rest) conversion := by
      cases conversion with
      | some c => rfl
      | none => rw [joinHead, joinOr, ih]
    rw [joinGroup_cons, joinBy, termConversion_eq]
    simp only [head]
    rfl

theorem groupTerms_eq (factor : Factor K) (gs : List (Group K)) (ts : List (Term K)) :
    groupTerms factor gs ts = groupBy conversionIn factor gs ts := by
  induction ts generalizing factor gs with
  | nil => rfl
  | cons t rest ih =>
    rw [groupTerms, groupBy, joinGroup_eq]
    refine congrArg (bind _) (funext fun found => ?_)
    cases found with
    | some x => exact ih _ _
    | none => exact ih _ _

theorem mergeFactor_eq : (mergeFactor : Merging K) = mergeBy conversionIn := by
  funext unit
  rw [mergeFactor, mergeBy, groupTerms_eq]

theorem reduceUnit_succ (depth : Nat) :
    (reduceUnit (depth + 1) : Reducer K) = recallBy (reduceUnit depth) := by
  funext bridging unit
  refine Action.ext fun s => ?_
  rw [reduceUnit_apply, recallBy, Action.apply_bind, Action.apply_get]
  dsimp only
  cases s.baseFactors.get? (unit.asciiSymbol, bridging) with
  | some known => rfl
  | none =>
    dsimp only
    rw [Action.apply_bind, factorAnew_eq]
    rcases (factorBy (reduceUnit depth) bridging unit).apply s with ⟨_ | _, t⟩ <;> rfl

/-! ### Calls -/

/-- A call of one of the functions. -/
inductive Call (K : Type) where
  | convert (d : Dimension) (src dest : UnitRef K)
  | merge (unit : Compound K)
  | reduce (bridging : Bool) (unit : NamedUnit K)

/-- What a call answers. -/
@[reducible]
def Call.Answer : Call K → Type
  | convert .. => Option (Conversion K)
  | merge _ => Factor K × Compound K
  | reduce .. => Option (Factor K)

def Resolver.run (r : Resolver K) : (call : Call K) → Action (Session K) call.Answer
  | .convert d src dest => r.convert d src dest
  | .merge unit => r.merge unit
  | .reduce bridging unit => r.reduce bridging unit

/-- The calls that a call may make while these units are registered. -/
inductive Calls (lex : Lexicon K) : Call K → Call K → Prop
  | mergeSource {d : Dimension} {src dest : UnitRef K} {c : Compound K}
      (meant : lex.deref src = .ok c) : Calls lex (.convert d src dest) (.merge c)
  | mergeTarget {d : Dimension} {src dest : UnitRef K} {c : Compound K}
      (meant : lex.deref dest = .ok c) : Calls lex (.convert d src dest) (.merge c)
  | reduce {d : Dimension} {src dest : UnitRef K} (u : NamedUnit K) :
      Calls lex (.convert d src dest) (.reduce true u)
  | join {c : Compound K} {head t v w : Term K} (behind : [head, t].Sublist c.terms)
      (alike : head.unit.dimension = t.unit.dimension) (single : t.withoutExponent = .ok v)
      (single' : head.withoutExponent = .ok w) :
      Calls lex (.merge c) (.convert t.unit.dimension (.term v) (.term w))
  | expand {bridging : Bool} {u v : NamedUnit K} (expands : lex.Expands u v) :
      Calls lex (.reduce bridging u) (.reduce bridging v)
  | bridge {u : NamedUnit K} {node : String} {c : Compound K} {t : Term K}
      (read : lex.parse node = .ok c) (mem : t ∈ c.terms)
      (direct : t.isBase = true ∨ t.unit.isExpandable = true) :
      Calls lex (.reduce true u) (.reduce false t.unit)

end Session

end Metrology
