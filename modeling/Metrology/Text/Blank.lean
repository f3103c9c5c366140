import Metrology.Text.Range

/-!
# White space

The characters that separate words: the white space of Unicode together with the four information
separators U+001C to U+001F.
-/
namespace Metrology.Text

def blanks : List (Nat × Nat) := [
  (0x9, 0xd), (0x1c, 0x20), (0x85, 0x85), (0xa0, 0xa0), (0x1680, 0x1680), (0x2000, 0x200a),
  (0x2028, 0x2029), (0x202f, 0x202f), (0x205f, 0x205f), (0x3000, 0x3000)]

def isBlank (c : Char) : Bool := inRanges blanks c

/-- Drops white space at both ends. -/
def strip (s : String) : String :=
  String.ofList ((s.toList.dropWhile isBlank).reverse.dropWhile isBlank).reverse

end Metrology.Text
