import Metrology.Prefix

/-!
# Magnitudes of prefixes

What the multiplier of a prefix tells: whether it may be one, whether it is a power of a thousand,
and which prefix undoes it.
-/
namespace Metrology

/-- Whether two numbers agree to nine digits. -/
def nearlyEqual (x y : Float) : Bool :=
  if x == y then true
  else if x.isInf || y.isInf then false
  else
    let gap := (y - x).abs
    gap ≤ (1e-9 * y).abs || gap ≤ (1e-9 * x).abs

namespace Prefix

/-- A prefix with a multiplier above zero other than 1. Without a Unicode symbol the ASCII one
serves. -/
def given (name asciiSymbol unicodeSymbol : String) (multiplier : Float) (group : PrefixGroup) :
    Except Error (Prefix Float) :=
  if multiplier ≤ 0.0 || multiplier == 1.0 then .error (.prefixMultiplier multiplier)
  else .ok ⟨name, asciiSymbol, if unicodeSymbol.isEmpty then asciiSymbol else unicodeSymbol,
    multiplier, group⟩

/-- Whether the multiplier is a power of a thousand. -/
def isEngineering (p : Prefix Float) : Except Error Bool :=
  let power := p.multiplier.log / Float.log 1000.0
  if power.isInf then .error .powerTooLarge
  else if power.isNaN then .error .roundingNaN
  else .ok (nearlyEqual power power.round)

end Prefix

namespace PrefixTable

/-- The metric prefixes for powers of a thousand. -/
def engineering (t : PrefixTable Float) : Except Error (List (Prefix Float)) :=
  (t.inGroup PrefixGroup.metric).filterM Prefix.isEngineering

/-- The prefix with the reciprocal multiplier, such as milli for kilo. -/
def invert? (t : PrefixTable Float) (p : Prefix Float) : Option (Prefix Float) :=
  t.all.find? fun q => nearlyEqual q.multiplier (1.0 / p.multiplier)

end PrefixTable

end Metrology
