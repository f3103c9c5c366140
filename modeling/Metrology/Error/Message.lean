import Metrology.Decimal.Notation
import Metrology.Dimension

/-!
# Wording of errors

The text of each fault and error. Causes that only arise inside arithmetic have none.
-/
namespace Metrology

def SyntaxFault.message : SyntaxFault → String
  | strayExponent => "Exponent must follow a unit symbol"
  | unexpectedCharacter c => "Unexpected character '" ++ c.toString ++ "'"
  | malformedExponent => "Malformed exponent"
  | mixedDigits => "Cannot mix ASCII and superscript digits in an exponent"
  | severalDigits => "Exponent must be a single digit"
  | expectedSymbol none => "Expected unit symbol, got end of input"
  | expectedSymbol (some got) => "Expected unit symbol, got '" ++ got ++ "'"
  | expectedOperator got => "Expected '*' or '/', got '" ++ got ++ "'"
  | lateGroup => "A parenthesized group may only follow the first '/'"
  | unclosedGroup => "Missing closing parenthesis"
  | groupOperator got => "Only '*' may appear inside parentheses, got '" ++ got ++ "'"
  | afterGroup got => "Unexpected '" ++ got ++ "' after closing parenthesis"
  | severalTerms => "Expected a single unit term"

namespace Error

/-- The limits on exponents, as they are quoted. -/
def exponentLimits : String := "[-" ++ toString maxExponent ++ ", " ++ toString maxExponent ++ "]"

def message : Error → Option String
  | malformed error source =>
    some (error.fault.message ++ " (in '" ++ source ++ "' at position "
      ++ toString error.position ++ ")")
  | invalidCode code => some ("Invalid dimension code '" ++ code ++ "'.")
  | invalidLetter letter => some ("Invalid dimension letter '" ++ letter ++ "'.")
  | dimensionOutOfRange n letter =>
    some ("Exponent " ++ toString n ++ " for dimension '" ++ letter.toString
      ++ "' is outside the range "
      ++ exponentLimits ++ ".")
  | exponentNotInteger shown => some ("Exponent must be an integer, got " ++ shown ++ ".")
  | zeroExponent unit => some ("The unit '" ++ unit ++ "' cannot have an exponent of 0.")
  | exponentOutOfRange n unit =>
    some ("Exponent " ++ toString n ++ " for '" ++ unit ++ "' is outside the range "
      ++ exponentLimits ++ ".")
  | prefixRefused unit scaling =>
    some ("The unit '" ++ unit ++ "' does not accept the prefix '" ++ scaling ++ "'.")
  | prefixTaken symbol => some ("Prefix symbol '" ++ symbol ++ "' is already registered.")
  | dimensionTaken dimension owner =>
    some ("Dimension '" ++ dimension ++ "' already belongs to the quantity type '" ++ owner ++ "'.")
  | symbolTaken symbol newcomer owner =>
    some ("The symbol '" ++ symbol ++ "' of " ++ newcomer ++ " is already used by " ++ owner ++ ".")
  | unknownUnit symbol => some ("Unknown unit '" ++ symbol ++ "'.")
  | noSharedUnit first second =>
    some ("Conversions do not share a unit: '" ++ first ++ "' and '" ++ second ++ "'.")
  | unlikeDimensions src srcDimension dest destDimension =>
    some ("Cannot convert between '" ++ src ++ "' (" ++ srcDimension ++ ") and '" ++ dest ++ "' ("
      ++ destDimension ++ ").")
  | factorNotPositive src dest =>
    some ("Conversion factor from '" ++ src ++ "' to '" ++ dest ++ "' must be positive.")
  | foreignUnit unit quantityType =>
    some ("The unit '" ++ unit ++ "' is invalid for " ++ quantityType ++ " quantities.")
  | unlikeConverter unit dimension expected =>
    some ("The unit '" ++ unit ++ "' with dimension '" ++ dimension
      ++ "' does not match the converter dimension '"
      ++ expected ++ "'.")
  | noPath src dest =>
    some ("No conversion path found between '" ++ src ++ "' and '" ++ dest ++ "'.")
  | prefixMultiplier got =>
    some ("Prefix multiplier must be positive and not 1, got " ++ Notation.plain.write got)
  | expansionMultiplier unit => some ("Expansion multiplier for '" ++ unit ++ "' must be positive")
  | errorBound got => some ("Relative error must be non-negative, got " ++ Notation.plain.write got)
  | divisionByZero => some "Cannot divide by a zero conversion factor"
  | inversionOfZero => some "Cannot invert a zero conversion factor"
  | zeroToNegativePower | powerTooLarge | roundingNaN | unknownSystem _ | unregistered _
  | endlessExpansion _ => none

end Error

end Metrology
