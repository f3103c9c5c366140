/-!
# Physical axes

The ten independent axes that every quantity is measured along, in order of priority, each with the
letter that stands for it in a dimension code and the SI base unit that measures it.
-/
namespace Metrology

inductive Axis where
  | mass | length | angle | data | currency | time | current | temperature | substance | luminosity
  deriving DecidableEq, Repr

namespace Axis

/-- Every axis once, the first to be written in a code first. -/
def all : List Axis :=
  [mass, length, angle, data, currency, time, current, temperature, substance, luminosity]

def letter : Axis → Char
  | mass => 'M'
  | length => 'L'
  | angle => 'A'
  | data => 'D'
  | currency => 'C'
  | time => 'T'
  | current => 'I'
  | temperature => 'H'
  | substance => 'N'
  | luminosity => 'J'

def name : Axis → String
  | mass => "mass"
  | length => "length"
  | angle => "angle"
  | data => "data"
  | currency => "currency"
  | time => "time"
  | current => "electric current"
  | temperature => "temperature"
  | substance => "amount of substance"
  | luminosity => "luminous intensity"

/-- Symbol of the SI base unit without its prefix. -/
def plainSymbol : Axis → String
  | mass => "g"
  | length => "m"
  | angle => "rad"
  | data => "B"
  | currency => "XAU"
  | time => "s"
  | current => "A"
  | temperature => "K"
  | substance => "mol"
  | luminosity => "cd"

/-- The kilogram is the one SI base unit that carries a prefix. -/
def siSymbol : Axis → String
  | mass => "kg"
  | a => a.plainSymbol

/-- Position in the order of priority, from 0. -/
def priority (a : Axis) : Nat := all.idxOf a

def ofLetter? (c : Char) : Option Axis := all.find? fun a => a.letter = c

theorem mem_all (a : Axis) : a ∈ all := by cases a <;> decide

theorem nodup_all : all.Nodup := by decide

theorem ofLetter?_letter (a : Axis) : ofLetter? a.letter = some a := by cases a <;> rfl

theorem letter_of_ofLetter? {c : Char} {a : Axis} (h : ofLetter? c = some a) : a.letter = c := by
  simpa using List.find?_some h

end Axis

end Metrology
