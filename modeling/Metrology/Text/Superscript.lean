/-!
# Superscripts

Exponents are written either with plain digits and `-` or with the superscript digits and minus;
each form maps onto the other character by character.
-/
namespace Metrology.Text

def superscriptMinus : Char := '⁻'

/-- Each plain character of an exponent with its superscript. -/
def superscripts : List (Char × Char) :=
  [('-', '⁻'), ('0', '⁰'), ('1', '¹'), ('2', '²'), ('3', '³'), ('4', '⁴'), ('5', '⁵'), ('6', '⁶'),
    ('7', '⁷'), ('8', '⁸'), ('9', '⁹')]

def raise (c : Char) : Char := ((superscripts.find? fun p => p.1 = c).map (·.2)).getD c

def lower (c : Char) : Char := ((superscripts.find? fun p => p.2 = c).map (·.1)).getD c

def isSuperscript (c : Char) : Bool := superscripts.any fun p => p.2 = c

def isSuperscriptDigit (c : Char) : Bool := isSuperscript c && c ≠ superscriptMinus

def toSuperscript (s : String) : String := String.ofList (s.toList.map raise)

def ofSuperscript (s : String) : String := String.ofList (s.toList.map lower)

end Metrology.Text
