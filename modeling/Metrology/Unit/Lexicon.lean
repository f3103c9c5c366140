import Metrology.Expression.Parser
import Metrology.Unit.Compound

/-!
# The lexicon

The registered units, each under its ASCII symbol in the order of registration and under every
symbol it answers to, with the prefixes they may take. A symbol is read as a unit if it is one,
otherwise as a prefix and a unit.
-/
namespace Metrology

structure Lexicon (K : Type) where
  prefixes : PrefixTable K
  /-- by ASCII symbol -/
  units : Register String (NamedUnit K)
  /-- by every symbol -/
  symbols : Register String (NamedUnit K)
  /-- the systems that were loaded -/
  systems : List MeasurementSystem
  deriving Repr

namespace Lexicon

variable {K : Type} [Scalar K]

def ofPrefixes (prefixes : PrefixTable K) : Lexicon K := ⟨prefixes, .empty, .empty, []⟩

def find? (lex : Lexicon K) (symbol : String) : Option (NamedUnit K) := lex.symbols.get? symbol

/-- The unit that answers to exactly this symbol. -/
def registered (lex : Lexicon K) (symbol : String) : Except Error (NamedUnit K) :=
  match lex.find? symbol with
  | some u => .ok u
  | none => .error (.unregistered symbol)

def findByName? (lex : Lexicon K) (name : String) : Option (NamedUnit K) :=
  lex.units.values.find? fun u => u.name = name

def contains (lex : Lexicon K) (symbol : String) : Bool := lex.symbols.contains symbol

def ofDimension (lex : Lexicon K) (d : Dimension) : List (NamedUnit K) :=
  lex.units.values.filter fun u => u.dimension = d

/-- The first symbol of `u` that belongs to a different unit, with that unit. -/
def clash? (lex : Lexicon K) (u : NamedUnit K) : Option (String × NamedUnit K) :=
  u.symbols.findSome? fun s =>
    match lex.find? s with
    | some v => if v.same u then none else some (s, v)
    | none => none

/-- Registers a unit, unless a different unit has one of its symbols. -/
def add (lex : Lexicon K) (u : NamedUnit K) : Except Error (Lexicon K) :=
  match lex.clash? u with
  | some (s, v) => .error (.symbolTaken s u.name v.name)
  | none => .ok { lex with
      units := lex.units.put u.asciiSymbol u
      symbols := lex.symbols.putAll (u.symbols.map fun s => (s, u)) }

/-- Takes out the unit that answers to a symbol, with all its symbols. -/
def remove (lex : Lexicon K) (symbol : String) : Option (NamedUnit K) × Lexicon K :=
  match lex.find? symbol with
  | none => (none, lex)
  | some u => (some u, { lex with
      units := lex.units.erase u.asciiSymbol
      symbols := u.symbols.foldl (fun r s => r.erase s) lex.symbols })

/-- A reading of a symbol as a prefix and a unit. -/
structure Reading (K : Type) where
  unit : NamedUnit K
  scaling : Prefix K

/-- What is left of `symbol` behind a beginning, unless nothing is. -/
def rest? (symbol beginning : List Char) : Option (List Char) :=
  match beginning, symbol with
  | [], [] => none
  | [], rest => some rest
  | _, [] => none
  | b :: beginning, c :: symbol => if b = c then rest? symbol beginning else none

/-- The unit left over behind a symbol of a prefix. Its ASCII and Unicode symbols take prefixes, an
alternate does not. -/
def scaledUnit? (lex : Lexicon K) (symbol scaling : String) : Option (NamedUnit K) := do
  let rest := String.ofList (← rest? symbol.toList scaling.toList)
  let unit ← lex.find? rest
  if rest = unit.asciiSymbol ∨ rest = unit.unicodeSymbol then some unit else none

/-- Every reading of a symbol with a prefix, whether accepted or not, the longest prefixes first. -/
def readings (lex : Lexicon K) (symbol : String) : List (Reading K) :=
  lex.prefixes.longestFirst.flatMap fun p =>
    p.symbols.filterMap fun s => (lex.scaledUnit? symbol s).map fun u => ⟨u, p⟩

/-- The unit and prefix that a symbol stands for. A registered symbol stands for its unit; of the
readings with a prefix the first that the unit accepts holds, and if all are refused the first is
reported. -/
def resolve (lex : Lexicon K) (symbol : String) : Except Error (NamedUnit K × Option (Prefix K)) :=
  match lex.find? symbol with
  | some u => .ok (u, none)
  | none =>
    let readings := lex.readings symbol
    match readings.find? fun r => r.unit.accepts r.scaling with
    | some r => .ok (r.unit, some r.scaling)
    | none =>
      match readings with
      | r :: _ => .error (.prefixRefused r.unit.asciiSymbol r.scaling.asciiSymbol)
      | [] => .error (.unknownUnit symbol)

/-- The term that a parsed term stands for. -/
def term (lex : Lexicon K) (t : ParsedTerm) : Except Error (Term K) := do
  let (unit, scaling) ← lex.resolve t.symbol
  Term.make unit scaling t.exponent

/-- Reads a single term; the empty text is the scalar. -/
def parseTerm (lex : Lexicon K) (symbol : String) : Except Error (Term K) := do
  match ← parseExpression symbol with
  | [] => Term.make ((lex.find? "").getD NamedUnit.scalar) none 1
  | [t] => lex.term t
  | _ :: t :: _ => .error (.malformed ⟨.severalTerms, t.position⟩ symbol)

/-- Reads a compound unit. -/
def parse (lex : Lexicon K) (symbol : String) : Except Error (Compound K) := do
  let parsed ← parseExpression symbol
  Compound.ofTerms (← parsed.mapM lex.term)

/-- The SI base unit of an axis as a term. -/
def siTerm (lex : Lexicon K) (a : Axis) : Except Error (Term K) := lex.parseTerm a.siSymbol

end Lexicon

/-- The ways in which a unit is handed over. -/
inductive UnitRef (K : Type) where
  | symbol (text : String)
  | unit (u : NamedUnit K)
  | term (t : Term K)
  | compound (c : Compound K)

/-- The compound unit that is meant. -/
def Lexicon.deref {K : Type} [Scalar K] (lex : Lexicon K) : UnitRef K → Except Error (Compound K)
  | .symbol text => lex.parse text
  | .unit u => do Compound.ofTerms [← Term.make u none 1]
  | .term t => Compound.ofTerms [t]
  | .compound c => .ok c

end Metrology
