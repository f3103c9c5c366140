import Metrology.Error
import Metrology.Text.Digit
import Metrology.Text.Superscript

/-!
# Tokens of unit expressions

A token is a lexeme and the code point at which it starts. An exponent is a sign and one decimal
digit, of whatever script it was written in.
-/
namespace Metrology

inductive Lexeme where
  | symbol (text : String)
  | exponent (negative : Bool) (digit : Char)
  | times (sign : Char)
  | slash
  | opening
  | closing
  | finish
  deriving DecidableEq, Repr

structure Token where
  lexeme : Lexeme
  position : Nat
  deriving DecidableEq, Repr

namespace Lexeme

/-- The text by which a lexeme is quoted. -/
def text : Lexeme → String
  | symbol text => text
  | exponent negative digit => String.ofList (if negative then ['-', digit] else [digit])
  | times sign => sign.toString
  | slash => "/"
  | opening => "("
  | closing => ")"
  | finish => ""

end Lexeme

/-- The number that a sign and a digit stand for. -/
def exponentValue (negative : Bool) (digit : Char) : Int :=
  let n : Int := (Text.decimalValue? digit).getD 0
  if negative then -n else n

end Metrology
