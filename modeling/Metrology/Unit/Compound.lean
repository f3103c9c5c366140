import Metrology.Unit.Term

/-!
# Compound units

A compound unit is a product of terms. Terms with the same unit and prefix are combined where the
first of them stands, terms whose exponents cancel are dropped and so are scalars; otherwise the
order of the terms is kept.
-/
namespace Metrology

structure Compound (K : Type) where
  terms : List (Term K)
  deriving DecidableEq, Repr

namespace Compound

variable {K : Type} [Scalar K]

/-- The first term of its kind, and the sum of the exponents of that kind. -/
structure Pile (K : Type) where
  head : Term K
  exponent : Int

/-- Adds a term to the pile of its kind, or opens a new one at the end. -/
def pile (t : Term K) : List (Pile K) → List (Pile K)
  | [] => [⟨t, t.exponent⟩]
  | p :: rest =>
    if p.head.sameBase t then ⟨p.head, p.exponent + t.exponent⟩ :: rest else p :: pile t rest

def piles (terms : List (Term K)) : List (Pile K) :=
  (terms.filter fun t => !t.isScalar).foldl (fun ps t => pile t ps) []

/-- The heads of the piles that do not cancel, each with the exponent of its pile. -/
def level (ps : List (Pile K)) : Except Error (List (Term K)) :=
  (ps.filter fun p => p.exponent ≠ 0).mapM fun p => p.head.withExponent p.exponent

/-- The product of terms. -/
def ofTerms (terms : List (Term K)) : Except Error (Compound K) := (level (piles terms)).map (⟨·⟩)

/-- The product of no terms. -/
def one : Compound K := ⟨[]⟩

def mulTerms (c : Compound K) (terms : List (Term K)) : Except Error (Compound K) :=
  ofTerms (c.terms ++ terms)

def mul (c d : Compound K) : Except Error (Compound K) := c.mulTerms d.terms

def inv (c : Compound K) : Except Error (Compound K) := do ofTerms (← c.terms.mapM Term.inv)

def div (c d : Compound K) : Except Error (Compound K) := do c.mul (← d.inv)

def divTerm (c : Compound K) (t : Term K) : Except Error (Compound K) := do c.mulTerms [← t.inv]

def pow (c : Compound K) (n : Int) : Except Error (Compound K) :=
  if n = 0 then .ok one else do ofTerms (← c.terms.mapM fun t => t.pow n)

def withoutPrefixes (c : Compound K) : Except Error (Compound K) := do
  ofTerms (← c.terms.mapM Term.withoutPrefix)

/-- The sum of the dimensions of the terms, each of which must be in range as well. -/
def dimension (c : Compound K) : Except Error Dimension := do
  let d ← c.terms.foldlM (fun d t => t.dimension.map d.mul) Dimension.dimensionless
  d.checked

/-- The product of the prefixes raised to their exponents. -/
def multiplier (c : Compound K) : Except Error K :=
  c.terms.foldlM (fun product t => t.multiplier.map (Scalar.mul product)) Scalar.one

def isDimensionless (c : Compound K) : Except Error Bool :=
  c.dimension.map (· == Dimension.dimensionless)

def isSI (c : Compound K) : Bool := c.terms.all fun t => t.unit.isSI

def hasPrefixes (c : Compound K) : Bool := c.terms.any fun t => t.scaling.isSome

def productSign : Script → String
  | .ascii => "*"
  | .unicode => "·"

/-- The symbol: the terms with positive exponents, then a slash and the others with their exponents
negated, in parentheses if there are several. Without positive terms the negative exponents stay. -/
def write (script : Script) (c : Compound K) : String :=
  let above := c.terms.filter fun t => 0 < t.exponent
  let below := c.terms.filter fun t => t.exponent < 0
  let product (parts : List String) := (productSign script).intercalate parts
  if above.isEmpty then product (below.map (·.write script))
  else
    let numerator := product (above.map (·.write script))
    let denominator := product (below.map fun t => t.writeWith script (-t.exponent))
    match below with
    | [] => numerator
    | [_] => numerator ++ "/" ++ denominator
    | _ => numerator ++ "/(" ++ denominator ++ ")"

/-- Compound units are compared by their symbols and, if those agree, by their dimensions. -/
def same (c d : Compound K) : Except Error Bool :=
  if c.write .ascii = d.write .ascii then do return (← c.dimension) == (← d.dimension)
  else .ok false

end Compound

end Metrology
