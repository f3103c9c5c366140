/-!
# Capitals

The characters whose full upper-case form is written with ASCII letters alone. Any other character
is left as it is, so a name made of ASCII capitals is reached from exactly its spellings in either
case.
-/
namespace Metrology.Text

def ligatures : List (Char × List Char) :=
  [('ß', ['S', 'S']), ('ı', ['I']), ('ſ', ['S']), ('ﬀ', ['F', 'F']), ('ﬁ', ['F', 'I']),
   ('ﬂ', ['F', 'L']), ('ﬃ', ['F', 'F', 'I']), ('ﬄ', ['F', 'F', 'L']), ('ﬅ', ['S', 'T']),
   ('ﬆ', ['S', 'T'])]

def capitals (c : Char) : List Char :=
  ((ligatures.find? fun p => p.1 = c).map (·.2)).getD [c.toUpper]

def capitalised (s : String) : String := String.ofList (s.toList.flatMap capitals)

end Metrology.Text
