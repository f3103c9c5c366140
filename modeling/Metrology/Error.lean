/-!
# What can go wrong

`SyntaxFault` lists the ways in which a unit expression can be malformed, `Error` every cause for
which an operation of the library gives no answer. The wording is in `Metrology.Error.Message`.
-/
namespace Metrology

inductive SyntaxFault where
  | strayExponent
  | unexpectedCharacter (c : Char)
  | malformedExponent
  | mixedDigits
  | severalDigits
  /-- `got` is the text found, or nothing at the end of the input. -/
  | expectedSymbol (got : Option String)
  | expectedOperator (got : String)
  | lateGroup
  | unclosedGroup
  | groupOperator (got : String)
  | afterGroup (got : String)
  | severalTerms
  deriving DecidableEq, Repr

/-- A fault and the code point at which it stands. -/
structure SyntaxError where
  fault : SyntaxFault
  position : Nat
  deriving DecidableEq, Repr

inductive Error where
  | malformed (error : SyntaxError) (source : String)
  -- dimension codes
  | invalidCode (code : String)
  | invalidLetter (letter : String)
  | dimensionOutOfRange (exponent : Int) (letter : Char)
  -- terms
  | exponentNotInteger (shown : String)
  | zeroExponent (unit : String)
  | exponentOutOfRange (exponent : Int) (unit : String)
  | prefixRefused (unit scaling : String)
  -- registries
  | prefixTaken (symbol : String)
  | dimensionTaken (dimension owner : String)
  | symbolTaken (symbol newcomer owner : String)
  | unknownUnit (symbol : String)
  -- conversions
  | noSharedUnit (first second : String)
  | unlikeDimensions (src srcDimension dest destDimension : String)
  | factorNotPositive (src dest : String)
  | foreignUnit (unit quantityType : String)
  | unlikeConverter (unit dimension expected : String)
  | noPath (src dest : String)
  -- numbers
  | prefixMultiplier (got : Float)
  | expansionMultiplier (unit : String)
  | errorBound (got : Float)
  | divisionByZero
  | inversionOfZero
  | zeroToNegativePower
  | powerTooLarge
  | roundingNaN
  -- names
  | unknownSystem (name : String)
  | unregistered (symbol : String)
  /-- An expansion that leads back to its own unit has no value. -/
  | endlessExpansion (unit : String)
  deriving DecidableEq, Repr

/-- What sort of request an error belongs to. -/
inductive ErrorKind where
  /-- text that is no expression -/
  | form
  /-- well-formed text without a meaning: unknown units, exponents out of range, unlike
  dimensions -/
  | meaning
  /-- two units that no conversions join -/
  | path
  /-- a number that is not allowed -/
  | value
  | zeroDivision
  | overflow
  /-- a name that nothing has -/
  | name
  deriving DecidableEq, Repr

def Error.kind : Error → ErrorKind
  | malformed _ _ => .form
  | noPath _ _ => .path
  | prefixMultiplier _ | expansionMultiplier _ | errorBound _ | roundingNaN => .value
  | divisionByZero | inversionOfZero | zeroToNegativePower => .zeroDivision
  | powerTooLarge | endlessExpansion _ => .overflow
  | unknownSystem _ | unregistered _ => .name
  | invalidCode _ | invalidLetter _ | dimensionOutOfRange _ _ | exponentNotInteger _
  | zeroExponent _ | exponentOutOfRange _ _ | prefixRefused _ _ | prefixTaken _
  | dimensionTaken _ _ | symbolTaken _ _ _ | unknownUnit _ | noSharedUnit _ _
  | unlikeDimensions _ _ _ _ | factorNotPositive _ _ | foreignUnit _ _
  | unlikeConverter _ _ _ => .meaning

end Metrology
