import Metrology.Session

/-!
# Reduction to SI base units

A unit of a single axis reduces through the network of its dimension, a unit with an expansion
through the expansion. Any other unit is bridged: it goes to a node of its own dimension that
reduces without bridging, as the litre does to `m3`. Reduction only moves down an expansion or gives
up bridging, so it ends unless a unit expands into itself.
-/
namespace Metrology.Session

variable {K : Type} [Scalar K]

/-- Multiplies up the factors of terms, each unit reduced by `reduce`; nothing if some unit does not
reduce. -/
def reduceTerms (reduce : NamedUnit K → Action (Session K) (Option (Factor K)))
    (product : Factor K) :
    List (Term K) → Action (Session K) (Option (Factor K))
  | [] => return some product
  | t :: rest => do
    match ← reduce t.unit with
    | none => return none
    | some factor =>
      let power ← ((Factor.exact t.scalingMultiplier).mul factor).pow t.exponent
      reduceTerms reduce (product.mul power) rest

/-- The factor of a unit of a single axis. -/
def reduceBase (unit : NamedUnit K) (a : Axis) : Action (Session K) (Option (Factor K)) := do
  let lex := (← get).lexicon
  if lex.contains a.plainSymbol then
    let si ← lex.siTerm a
    match ← route unit.dimension unit.asciiSymbol si.unit.asciiSymbol with
    | none => return none
    | some path => return some (← path.factor.div (.exact (← si.multiplier)))
  else return none

/-- The factor of a unit through the first of the nodes that reduces, where `reduce` does not
bridge. -/
def bridge (reduce : NamedUnit K → Action (Session K) (Option (Factor K))) (unit : NamedUnit K) :
    List String → Action (Session K) (Option (Factor K))
  | [] => return none
  | node :: rest => do
    if node = unit.asciiSymbol then bridge reduce unit rest
    else
      let nodeUnit ← (← get).lexicon.parse node
      if nodeUnit.terms.all fun t => t.isBase || t.unit.isExpandable then
        match ← route unit.dimension unit.asciiSymbol node with
        | none => bridge reduce unit rest
        | some path =>
          match ← reduceTerms reduce Factor.one nodeUnit.terms with
          | none => bridge reduce unit rest
          | some base => return some (path.factor.mul base)
      else bridge reduce unit rest

/-- The factor of a unit to SI base units, which is remembered. `depth` bounds the steps down
expansions and into bridging. -/
def reduceUnit : Nat → Bool → NamedUnit K → Action (Session K) (Option (Factor K))
  | 0, _, unit => throw (.endlessExpansion unit.asciiSymbol)
  | depth + 1, bridging, unit => do
    match (← get).baseFactors.get? (unit.asciiSymbol, bridging) with
    | some known => return known
    | none =>
      let found ←
        match unit.dimension.baseAxis? with
        | some a => reduceBase unit a
        | none =>
          match unit.expansion with
          | some expansion => do
            let expanded ← (← get).lexicon.parse expansion
            let base ← reduceTerms (reduceUnit depth bridging) Factor.one expanded.terms
            pure (base.map (Factor.read unit.expansionMultiplier).mul)
          | none =>
            if bridging then do
              let net ← network unit.dimension
              bridge (reduceUnit depth false) unit net.nodes
            else pure none
      modify fun s => { s with baseFactors := s.baseFactors.put (unit.asciiSymbol, bridging) found }
      return found

/-- Steps that suffice where no unit expands into itself: down the expansions of every unit, once
with bridging and once without. -/
def reductionDepth (s : Session K) : Nat := 2 * s.lexicon.units.size + 4

/-- The factor of a compound unit to the matching product of SI base units. -/
def toBase (unit : Compound K) (bridging : Bool) : Action (Session K) (Option (Factor K)) := do
  let depth := (← get).reductionDepth
  reduceTerms (reduceUnit depth bridging) Factor.one unit.terms

/-- The product of SI base units with given exponents, in their order. -/
def siUnit (v : Exponents) : Action (Session K) (Compound K) := do
  let lex := (← get).lexicon
  let terms ← (v.filter fun row => row.2 ≠ 0).mapM fun row => do
    let t ← lex.siTerm row.1
    t.withExponent row.2
  Compound.ofTerms terms

end Metrology.Session
