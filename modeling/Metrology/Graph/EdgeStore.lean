import Metrology.Catalogue.Loading
import Metrology.Conversion

/-!
# The store of conversions

Registered conversions by dimension, each between two units without prefixes: one given with
prefixes is rescaled, so that `in → mm = 25.4` is kept as `in → m = 0.0254`. The edges of a
dimension are built when they are first asked for, from the tables, the expansions of the registered
units and the caller's own additions and removals. Those are remembered apart, so they survive a
rebuilding; an edge that names a unit no longer registered is left out until the unit comes back.
-/
namespace Metrology

/-- The two units that an edge joins, from the first to the second. -/
abbrev EdgeKey := String × String

abbrev Edges (K : Type) := Register EdgeKey (Conversion K)

structure EdgeStore (K : Type) where
  edges : Register Dimension (Edges K)
  /-- the caller's conversions, as they are stored -/
  added : Register Dimension (Edges K)
  removed : Register Dimension (List EdgeKey)
  /-- the dimensions whose edges are up to date -/
  built : List Dimension
  deriving Repr

namespace EdgeStore

variable {K : Type} [Scalar K]

def empty : EdgeStore K := ⟨.empty, .empty, .empty, []⟩

def addedIn (store : EdgeStore K) (d : Dimension) : Edges K := (store.added.get? d).getD .empty

def removedIn (store : EdgeStore K) (d : Dimension) : List EdgeKey := (store.removed.get? d).getD []

/-- The conversion between the two units without their prefixes. -/
def unprefixed (d : Dimension) (src dest : Compound K) (factor : Factor K) :
    Except Error (Conversion K) :=
  if src.hasPrefixes || dest.hasPrefixes then do
    let scaled := factor.mul (.exact (← dest.multiplier))
    let factor ← scaled.div (.exact (← src.multiplier))
    return ⟨d.code, (← src.withoutPrefixes).write .ascii, (← dest.withoutPrefixes).write .ascii,
      factor⟩
  else .ok ⟨d.code, src.write .ascii, dest.write .ascii, factor⟩

/-- Both units of a row, or nothing if one of them is not registered. Malformed text is an error. -/
def parseEnds (lex : Lexicon K) (src dest : String) :
    Except Error (Option (Compound K × Compound K)) :=
  let parsed : Except Error (Compound K × Compound K) := do
    return (← lex.parse src, ← lex.parse dest)
  match parsed with
  | .ok ends => .ok (some ends)
  | .error e => if e.kind = .meaning then .ok none else .error e

/-- Adds a row to the edges, unless one of its units is not registered. -/
def addRow (lex : Lexicon K) (d : Dimension) (edges : Edges K) (row : EdgeKey × Factor K) :
    Except Error (Edges K) := do
  match ← parseEnds lex row.1.1 row.1.2 with
  | none => return edges
  | some (src, dest) =>
    let conversion ← unprefixed d src dest row.2
    return edges.put (conversion.src, conversion.dest) conversion

/-- The tabled conversions of a dimension, then the expansions of its units. -/
def rows (lex : Lexicon K) (d : Dimension) : List (EdgeKey × Factor K) :=
  let tabled := (Catalogue.conversions d).map fun row =>
    ((row.src, row.dest), Factor.read (Scalar.ofDecimal row.factor))
  let expansions := (lex.ofDimension d).filterMap fun u =>
    u.expansion.map fun e => ((u.asciiSymbol, e), Factor.read u.expansionMultiplier)
  tabled ++ expansions

/-- Puts back an edge of the caller's, if both its units are registered. -/
def restore (lex : Lexicon K) (edges : Edges K) (row : EdgeKey × Conversion K) :
    Except Error (Edges K) := do
  match ← parseEnds lex row.2.src row.2.dest with
  | none => return edges
  | some _ => return edges.put row.1 row.2

/-- The edges of a dimension, built anew. -/
def build (store : EdgeStore K) (lex : Lexicon K) (d : Dimension) : Except Error (Edges K) := do
  let known ← (rows lex d).foldlM (addRow lex d) .empty
  let kept := (store.removedIn d).foldl (fun edges key => edges.erase key) known
  (store.addedIn d).rows.foldlM (restore lex) kept

/-- The edges of a dimension, built if they are not up to date. Nothing is kept of a building that
fails. -/
def edgesOf (lex : Lexicon K) (d : Dimension) : Action (EdgeStore K) (Edges K) := do
  let store ← get
  if store.built.contains d then return (store.edges.get? d).getD .empty
  else
    let edges ← store.build lex d
    set { store with edges := store.edges.put d edges, built := store.built ++ [d] }
    return edges

def find? (lex : Lexicon K) (d : Dimension) (src dest : String) :
    Action (EdgeStore K) (Option (Conversion K)) := do
  return (← edgesOf lex d).get? (src, dest)

/-- Registers a conversion between two units of one dimension and gives the edge as it is kept. -/
def add (lex : Lexicon K) (src dest : String) (factor : Factor K) :
    Action (EdgeStore K) (Conversion K) := do
  let srcUnit ← lex.parse src
  let destUnit ← lex.parse dest
  let d ← srcUnit.dimension
  let e ← destUnit.dimension
  if d ≠ e then throw (.unlikeDimensions src d.code dest e.code)
  if Scalar.isNotPositive factor.value then throw (.factorNotPositive src dest)
  let edges ← edgesOf lex d
  let conversion ← unprefixed d srcUnit destUnit factor
  let key := (conversion.src, conversion.dest)
  modify fun store => { store with
    edges := store.edges.put d (edges.put key conversion)
    added := store.added.put d ((store.addedIn d).put key conversion)
    removed := store.removed.put d ((store.removedIn d).filter (· ≠ key)) }
  return conversion

/-- Takes out the edge between two units without their prefixes, and gives it if there was one. -/
def remove (lex : Lexicon K) (src dest : String) :
    Action (EdgeStore K) (Option (Conversion K)) := do
  let srcUnit ← (← lex.parse src).withoutPrefixes
  let destUnit ← (← lex.parse dest).withoutPrefixes
  let d ← srcUnit.dimension
  let key := (srcUnit.write .ascii, destUnit.write .ascii)
  let edges ← edgesOf lex d
  modify fun store =>
    let removed := store.removedIn d
    { store with
      edges := store.edges.put d (edges.erase key)
      added := store.added.put d ((store.addedIn d).erase key)
      removed := store.removed.put d (if key ∈ removed then removed else removed ++ [key]) }
  return edges.get? key

/-- Has every dimension built anew when it is next asked for. -/
def reload (store : EdgeStore K) : EdgeStore K := { store with built := [] }

end EdgeStore

end Metrology
