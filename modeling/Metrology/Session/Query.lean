import Metrology.Session.Merge

/-!
# Queries

What a session is asked for: conversions, converted values, expanded and merged units.
-/
namespace Metrology.Session

variable {K : Type} [Scalar K]

/-- The conversion between two units of a given dimension. -/
def conversionIn (d : Dimension) (src dest : UnitRef K) :
    Action (Session K) (Option (Conversion K)) :=
  answer mergeFactor d src dest

/-- A value converted between two units of a given dimension. -/
def convertIn (d : Dimension) (value : K) (src dest : UnitRef K) : Action (Session K) K := do
  match ← conversionIn d src dest with
  | some c => return Scalar.mul value c.factor.value
  | none =>
    let srcUnit ← validate d src
    let destUnit ← validate d dest
    throw (.noPath (srcUnit.write .ascii) (destUnit.write .ascii))

/-- The conversion between two units, of the dimension of the first. -/
def conversion (src dest : UnitRef K) : Action (Session K) (Option (Conversion K)) := do
  let srcUnit ← parse src
  conversionIn (← srcUnit.dimension) (.compound srcUnit) dest

def convert (value : K) (src dest : UnitRef K) : Action (Session K) K := do
  let srcUnit ← parse src
  convertIn (← srcUnit.dimension) value (.compound srcUnit) dest

/-- A value with its unit after merging. -/
def merge (value : K) (ref : UnitRef K) : Action (Session K) (K × Compound K) := do
  let (factor, merged) ← mergeFactor (← parse ref)
  return (Scalar.mul value factor.value, merged)

/-- Puts the expansions of terms in their place, one level down, and scales the value
accordingly. -/
def expandTerms (lex : Lexicon K) (value : K) : List (Term K) → Except Error (K × List (Term K))
  | [] => .ok (value, [])
  | t :: rest =>
    match t.unit.expansion with
    | none => do
      let (value, terms) ← expandTerms lex value rest
      return (value, t :: terms)
    | some expansion => do
      let expanded ← (← lex.parse expansion).pow t.exponent
      let scale ← Scalar.pow (Scalar.mul t.unit.expansionMultiplier t.scalingMultiplier) t.exponent
      let (value, terms) ← expandTerms lex (Scalar.mul value scale) rest
      return (value, expanded.terms ++ terms)

/-- A value with its unit after named derived units were expanded by one level and the result
merged. -/
def expand (value : K) (ref : UnitRef K) : Action (Session K) (K × Compound K) := do
  let unit ← parse ref
  let (value, terms) ← expandTerms (← get).lexicon value unit.terms
  merge value (.compound (← Compound.ofTerms terms))

end Metrology.Session
