import Metrology.Session.Query

/-!
# Changes of the registries

Each change is made in its registry first. A change of units has the conversions built anew, and
every change makes the session forget what it remembers; if the registry refuses, neither happens.
-/
namespace Metrology.Session

variable {K : Type} [Scalar K]

def refresh (s : Session K) : Session K := { s with store := s.store.reload }.forget

def loadSystem (system : MeasurementSystem) : Action (Session K) Nat := do
  let added ← onLexicon (Lexicon.loadSystem system)
  modify refresh
  return added

/-- Registers a unit with the lexicon alone. -/
def registerUnit (u : NamedUnit K) : Action (Session K) PUnit :=
  onLexicon do set (← (← get).add u)

/-- Takes a unit out of the lexicon alone. -/
def unregisterUnit (symbol : String) : Action (Session K) (Option (NamedUnit K)) :=
  onLexicon do
    let (removed, lex) := (← get).remove symbol
    set lex
    return removed

def addUnit (u : NamedUnit K) : Action (Session K) PUnit := do
  registerUnit u
  modify refresh

def removeUnit (symbol : String) : Action (Session K) (Option (NamedUnit K)) := do
  let removed ← unregisterUnit symbol
  modify refresh
  return removed

/-- Adds a prefix. What is remembered stays as it was found with the prefixes before. -/
def addPrefix (p : Prefix K) : Action (Session K) PUnit :=
  onLexicon do
    let lex ← get
    set { lex with prefixes := ← lex.prefixes.add p }

def addConversion (src dest : String) (factor : Factor K) : Action (Session K) (Conversion K) := do
  let c ← onStore fun lex => EdgeStore.add lex src dest factor
  modify forget
  return c

def removeConversion (src dest : String) : Action (Session K) (Option (Conversion K)) := do
  let c ← onStore fun lex => EdgeStore.remove lex src dest
  modify forget
  return c

/-- Loads systems one after the other. -/
def loadSystems : List MeasurementSystem → Action (Session K) PUnit
  | [] => return ⟨⟩
  | system :: rest => do
    let _ ← onLexicon (Lexicon.loadSystem system)
    loadSystems rest

/-- A session with the tabled units of some systems. -/
def ofSystems (systems : List MeasurementSystem) : Except Error (Session K) :=
  match (loadSystems systems).apply blank with
  | (.ok _, s) => .ok s
  | (.error e, _) => .error e

/-- A session with the tabled units of systems given by their names. -/
def ofNames (names : List String) : Except Error (Session K) := do
  ofSystems (← names.mapM MeasurementSystem.search)

end Metrology.Session
