import Metrology.Decimal
import Metrology.Error
import Metrology.Register

/-!
# Prefixes

A prefix scales a unit by a number. Prefixes belong to groups, and a unit takes those prefixes whose
groups it shares. A table of prefixes gives each of its symbols to one prefix.
-/
namespace Metrology

/-- A set of groups of prefixes, one bit for each group. -/
abbrev PrefixGroup := Nat

namespace PrefixGroup

def smallMetric : PrefixGroup := 1
def largeMetric : PrefixGroup := 2
def metric : PrefixGroup := 3
def binary : PrefixGroup := 4
def large : PrefixGroup := 6
def smallEngineering : PrefixGroup := 8
def largeEngineering : PrefixGroup := 16

/-- Number of groups. -/
def count : Nat := 5

/-- Whether two sets have a group in common. -/
def meets (g h : PrefixGroup) : Bool := g &&& h != 0

/-- A set given by an integer. A negative number stands for a complement, within as many bits as it
has itself and no fewer than there are groups. -/
def ofInt (n : Int) : PrefixGroup :=
  match n with
  | .ofNat g => g
  | .negSucc m =>
    let width := if m < 1 <<< count then 1 <<< count else 1 <<< ((m + 1).log2 + 1)
    width - (m + 1)

end PrefixGroup

structure Prefix (K : Type) where
  name : String
  asciiSymbol : String
  unicodeSymbol : String
  multiplier : K
  group : PrefixGroup
  deriving DecidableEq, Repr

namespace Prefix

variable {K : Type}

/-- The distinct symbols, the ASCII one first. -/
def symbols (p : Prefix K) : List String :=
  if p.unicodeSymbol = p.asciiSymbol then [p.asciiSymbol] else [p.asciiSymbol, p.unicodeSymbol]

/-- Code points of the longest symbol. -/
def reach (p : Prefix K) : Nat := p.symbols.foldl (fun n s => max n s.length) 0

end Prefix

structure PrefixTable (K : Type) where
  /-- in the order in which they were added -/
  all : List (Prefix K)
  bySymbol : Register String (Prefix K)
  deriving Repr

namespace PrefixTable

variable {K : Type}

def empty : PrefixTable K := ⟨[], .empty⟩

def find? (t : PrefixTable K) (symbol : String) : Option (Prefix K) := t.bySymbol.get? symbol

/-- Adds a prefix whose symbols are all free. -/
def add (t : PrefixTable K) (p : Prefix K) : Except Error (PrefixTable K) :=
  match p.symbols.find? t.bySymbol.contains with
  | some symbol => .error (.prefixTaken symbol)
  | none => .ok ⟨t.all ++ [p], t.bySymbol.putAll (p.symbols.map fun s => (s, p))⟩

def inGroup (t : PrefixTable K) (g : PrefixGroup) : List (Prefix K) :=
  t.all.filter fun p => p.group.meets g

/-- Puts a prefix before the first one that reaches no further. -/
def insertByReach (p : Prefix K) : List (Prefix K) → List (Prefix K)
  | [] => [p]
  | q :: rest => if q.reach ≤ p.reach then p :: q :: rest else q :: insertByReach p rest

/-- Longest symbols first, so that `da` is tried before `d`; the order of addition decides between
equal lengths. -/
def longestFirst (t : PrefixTable K) : List (Prefix K) := t.all.foldr insertByReach []

end PrefixTable

end Metrology
