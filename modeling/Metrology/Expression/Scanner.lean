import Metrology.Expression.Token
import Metrology.Text.Blank
import Metrology.Text.Letter

/-!
# Scanning unit expressions

White space separates tokens and is dropped. A symbol is the longest run of letters and symbol
signs; a first word of ASCII letters alone goes on over single spaces for up to three words (`US fl
oz`). An exponent stands directly behind a symbol, in plain digits with an optional caret or in
superscripts, and has one digit.
-/
namespace Metrology.Scanner

def timesSigns : List Char := ['*', '.', '·', '⋅']

/-- Characters other than letters that may stand in a symbol. -/
def symbolSigns : List Char :=
  ['!', '#', '$', '%', '&', '\'', '"', '?', '@', '`', '°', '′', '″', '‰']

def isSymbolChar (c : Char) : Bool := Text.isLetter c || symbolSigns.contains c

/-- Words that a symbol may have. -/
def maxWords : Nat := 3

/-- At most `n` further words, each a single space and a run of ASCII letters, and the rest of the
text. -/
def takeWords : Nat → List Char → List Char × List Char
  | 0, cs => ([], cs)
  | n + 1, cs =>
    match cs with
    | ' ' :: c :: rest =>
      if Text.isAsciiLetter c then
        let word := rest.takeWhile Text.isAsciiLetter
        let (more, after) := takeWords n (rest.dropWhile Text.isAsciiLetter)
        (' ' :: c :: word ++ more, after)
      else ([], cs)
    | _ => ([], cs)

/-- The symbol at the head of a text, and the rest. -/
def takeSymbol (cs : List Char) : List Char × List Char :=
  let word := cs.takeWhile isSymbolChar
  let rest := cs.dropWhile isSymbolChar
  if word.all Text.isAsciiLetter then
    let (more, after) := takeWords (maxWords - 1) rest
    (word ++ more, after)
  else (word, rest)

/-- An exponent as it stands in the text. -/
structure WrittenExponent where
  /-- number of characters, caret and sign included -/
  width : Nat
  negative : Bool
  /-- plain or script digits, superscripts already lowered -/
  digits : List Char
  deriving DecidableEq, Repr

/-- A run of decimal digits with an optional caret and minus before it, if the text starts so. -/
def plainExponent? (cs : List Char) : Option WrittenExponent :=
  let (caret, afterCaret) := match cs with
    | '^' :: rest => (1, rest)
    | _ => (0, cs)
  let (negative, afterSign) := match afterCaret with
    | '-' :: rest => (true, rest)
    | _ => (false, afterCaret)
  let digits := afterSign.takeWhile Text.isDecimal
  if digits.isEmpty then none
  else some ⟨caret + (if negative then 1 else 0) + digits.length, negative, digits⟩

/-- A run of superscript digits with an optional superscript minus before it, if the text starts
so. -/
def raisedExponent? (cs : List Char) : Option WrittenExponent :=
  let (negative, afterSign) := match cs with
    | '⁻' :: rest => (true, rest)
    | _ => (false, cs)
  let digits := afterSign.takeWhile Text.isSuperscriptDigit
  if digits.isEmpty then none
  else some ⟨(if negative then 1 else 0) + digits.length, negative, digits.map Text.lower⟩

def writtenExponent? (cs : List Char) : Option WrittenExponent :=
  match plainExponent? cs with
  | some e => some e
  | none => raisedExponent? cs

/-- Signs that announce an exponent and cannot stand behind a symbol without one. -/
def exponentSigns : List Char := ['^', '-', '⁻']

/-- The exponent behind a symbol, if there is one: its sign, its digit and its width. -/
def readExponent (cs : List Char) : Except SyntaxFault (Option (Bool × Char × Nat)) :=
  match writtenExponent? cs with
  | none =>
    match cs with
    | c :: _ => if exponentSigns.contains c then .error .malformedExponent else .ok none
    | [] => .ok none
  | some e =>
    match (cs.drop e.width).head? with
    | some c =>
      if Text.isDigit c || Text.isSuperscript c then .error .mixedDigits else single e
    | none => single e
where
  single (e : WrittenExponent) : Except SyntaxFault (Option (Bool × Char × Nat)) :=
    match e.digits with
    | [d] => .ok (some (e.negative, d, e.width))
    | _ => .error .severalDigits

/-- The operator or parenthesis that a character is by itself. -/
def operator? (c : Char) : Option Lexeme :=
  if timesSigns.contains c then some (.times c)
  else if c = '/' then some .slash
  else if c = '(' then some .opening
  else if c = ')' then some .closing
  else none

/-- The fault of a character that starts no token. -/
def strayFault (c : Char) : SyntaxFault :=
  if c = '^' || c = '-' || Text.isDigit c || Text.isSuperscript c then .strayExponent
  else .unexpectedCharacter c

/-- Scans the text that starts at `position`. Each step takes at least one character, so `fuel`
never falls short of the length of the text. -/
def scan : Nat → Nat → List Char → Except SyntaxError (List Token)
  | _, position, [] => .ok [⟨.finish, position⟩]
  | 0, position, _ => .ok [⟨.finish, position⟩]
  | fuel + 1, position, c :: rest =>
    if Text.isBlank c then scan fuel (position + 1) rest
    else match operator? c with
      | some lexeme => (scan fuel (position + 1) rest).map (⟨lexeme, position⟩ :: ·)
      | none =>
        if isSymbolChar c then
          let (symbol, after) := takeSymbol (c :: rest)
          let behind := position + symbol.length
          match readExponent after with
          | .error fault => .error ⟨fault, behind⟩
          | .ok none =>
            (scan fuel behind after).map (⟨.symbol (String.ofList symbol), position⟩ :: ·)
          | .ok (some (negative, digit, width)) =>
            (scan fuel (behind + width) (after.drop width)).map fun tokens =>
              ⟨.symbol (String.ofList symbol), position⟩
                :: ⟨.exponent negative digit, behind⟩ :: tokens
        else .error ⟨strayFault c, position⟩

end Metrology.Scanner

namespace Metrology

/-- The tokens of a unit expression, the last of which marks its end. -/
def tokenize (source : String) : Except Error (List Token) :=
  let cs := source.toList
  (Scanner.scan cs.length 0 cs).mapError fun e => .malformed e source

end Metrology
