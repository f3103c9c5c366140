import Metrology.Graph.Routes

/-!
# Sessions

A session holds the registered units, quantity types and conversions, and for each dimension a
chart: the routes through the network of its conversions, once that was drawn, and the conversions
already answered. What is remembered was computed from the registries, so every change of them made
through the session makes it forget.
-/
namespace Metrology

structure Chart (K : Type) where
  /-- nothing until the network is first needed -/
  routes : Option (Routes K)
  /-- conversions between compound units, by their ASCII symbols -/
  answers : Register EdgeKey (Option (Conversion K))
  deriving Repr

def Chart.blank {K : Type} : Chart K := ⟨none, .empty⟩

structure Session (K : Type) where
  lexicon : Lexicon K
  quantityTypes : QuantityTypes
  store : EdgeStore K
  charts : Register Dimension (Chart K)
  /-- factors of units to SI base units, by ASCII symbol and whether bridging was allowed -/
  baseFactors : Register (String × Bool) (Option (Factor K))
  deriving Repr

namespace Session

variable {K : Type} [Scalar K]

/-- A session without units. -/
def blank : Session K :=
  ⟨.ofPrefixes Catalogue.prefixes, Catalogue.quantityTypes, .empty, .empty, .empty⟩

def chart (s : Session K) (d : Dimension) : Chart K := (s.charts.get? d).getD .blank

def putChart (s : Session K) (d : Dimension) (c : Chart K) : Session K :=
  { s with charts := s.charts.put d c }

/-- Drops every chart and every remembered factor. -/
def forget (s : Session K) : Session K := { s with charts := .empty, baseFactors := .empty }

def onLexicon {α : Type} (a : Action (Lexicon K) α) : Action (Session K) α :=
  a.onPart (·.lexicon) fun s lexicon => { s with lexicon := lexicon }

def onStore {α : Type} (a : Lexicon K → Action (EdgeStore K) α) : Action (Session K) α := do
  let s ← get
  (a s.lexicon).onPart (·.store) fun s store => { s with store := store }

/-- The routes of a dimension, over a network drawn now if it was not. -/
def routes (d : Dimension) : Action (Session K) (Routes K) := do
  match ((← get).chart d).routes with
  | some known => return known
  | none =>
    let edges ← onStore fun lex => EdgeStore.edgesOf lex d
    let s ← get
    let drawn := Routes.ofNetwork
      (Network.ofEdges ((s.lexicon.ofDimension d).map (·.asciiSymbol)) edges)
    set (s.putChart d { s.chart d with routes := some drawn })
    return drawn

def network (d : Dimension) : Action (Session K) (Network K) := return (← routes d).network

/-- The conversion between two nodes of a dimension, or nothing if no conversions join them. -/
def route (d : Dimension) (src dest : String) : Action (Session K) (Option (Conversion K)) := do
  let known ← routes d
  (Routes.route d.code src dest).onPart (fun _ => known)
    fun s known => s.putChart d { s.chart d with routes := some known }

/-- The compound unit that is meant, if it has the dimension. -/
def validate (d : Dimension) (ref : UnitRef K) : Action (Session K) (Compound K) := do
  let s ← get
  let unit ← s.lexicon.deref ref
  let e ← unit.dimension
  if e = d then return unit
  else match s.quantityTypes.find? d with
    | some t => throw (.foreignUnit (unit.write .ascii) t.name)
    | none => throw (.unlikeConverter (unit.write .ascii) e.code d.code)

/-- The compound unit that is meant. -/
def parse (ref : UnitRef K) : Action (Session K) (Compound K) := do
  (← get).lexicon.deref ref

end Session

end Metrology
