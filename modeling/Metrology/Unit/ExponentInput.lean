import Metrology.Decimal.Notation
import Metrology.Text.Quoted
import Metrology.Unit.Term

/-!
# Exponents offered from outside

Exponents are integers. Anything else that is offered is refused and shown as it was given.
-/
namespace Metrology

inductive ExponentInput where
  | integer (n : Int)
  | number (x : Float)
  | truth (b : Bool)
  | absent
  | text (s : String)
  deriving DecidableEq, Repr

namespace ExponentInput

def shown : ExponentInput → String
  | integer n => toString n
  | number x => Notation.plain.write x
  | truth b => if b then "True" else "False"
  | absent => "None"
  | text s => Text.quoted s

def integer? : ExponentInput → Except Error Int
  | integer n => .ok n
  | other => .error (.exponentNotInteger other.shown)

end ExponentInput

end Metrology
