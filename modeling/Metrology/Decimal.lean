/-!
# Decimals

A decimal is a natural number times a power of ten. The tables are written in decimals, and numbers
are printed by choosing one.
-/
namespace Metrology

/-- The number `digits * 10 ^ exponent`. -/
structure Decimal where
  digits : Nat
  exponent : Int
  deriving DecidableEq, Repr

namespace Decimal

def ten (n : Nat) : Nat := Nat.pow 10 n

instance (n : Nat) : OfNat Decimal n := ⟨⟨n, 0⟩⟩

instance : OfScientific Decimal := ⟨fun m negative e => ⟨m, if negative then -(e : Int) else e⟩⟩

/-- Moves the zeros at the end of the digits into the exponent. `fuel` bounds their number. -/
def stripZeros : Nat → Decimal → Decimal
  | 0, d => d
  | fuel + 1, d =>
    if d.digits ≠ 0 ∧ d.digits % 10 = 0 then stripZeros fuel ⟨d.digits / 10, d.exponent + 1⟩ else d

end Decimal

end Metrology
