import Mathlib.Data.List.Forall2
import Metrology.Proofs.Expression.Characters
import Metrology.Proofs.Outcome

/-!
# Lexing

The scanner as a relation between texts and lexemes, which leaves positions aside. A text that ends in
one of two tails is lexed alike if the tails are, provided that what stands in front runs on into
neither of them.
-/
namespace Metrology.Scanner

/-- The text lexes into these lexemes. Right behind a symbol, an exponent is read first. -/
inductive Lexes : (behindSymbol : Bool) → List Char → List Lexeme → Prop
  | finish : Lexes false [] [.finish]
  | blank {c : Char} {cs : List Char} {lexemes : List Lexeme} (blank : Text.isBlank c = true)
      (more : Lexes false cs lexemes) : Lexes false (c :: cs) lexemes
  | operator {c : Char} {cs : List Char} {lexeme : Lexeme} {lexemes : List Lexeme}
      (visible : Text.isBlank c = false) (sign : operator? c = some lexeme)
      (more : Lexes false cs lexemes) : Lexes false (c :: cs) (lexeme :: lexemes)
  | symbol {c : Char} {cs : List Char} {lexemes : List Lexeme} (visible : Text.isBlank c = false)
      (plain : operator? c = none) (char : isSymbolChar c = true)
      (more : Lexes true (takeSymbol (c :: cs)).2 lexemes) :
      Lexes false (c :: cs) (.symbol (String.ofList (takeSymbol (c :: cs)).1) :: lexemes)
  | bare {cs : List Char} {lexemes : List Lexeme} (none : readExponent cs = .ok none)
      (more : Lexes false cs lexemes) : Lexes true cs lexemes
  | exponent {cs : List Char} {negative : Bool} {digit : Char} {width : Nat} {lexemes : List Lexeme}
      (written : readExponent cs = .ok (some (negative, digit, width)))
      (more : Lexes false (cs.drop width) lexemes) :
      Lexes true cs (.exponent negative digit :: lexemes)

/-! ### The parts of a text -/

theorem takeWords_parts (n : Nat) (cs : List Char) : (takeWords n cs).1 ++ (takeWords n cs).2 = cs := by
  induction n generalizing cs with
  | zero => rfl
  | succ n ih =>
    unfold takeWords
    split
    next c rest =>
      split
      next =>
        have parts := List.takeWhile_append_dropWhile (p := Text.isAsciiLetter) (l := rest)
        dsimp only
        simp only [List.cons_append, List.append_assoc, ih, parts]
      next => rfl
    next => rfl

/-- A symbol and the text behind it make up the text. -/
theorem takeSymbol_parts (cs : List Char) : (takeSymbol cs).1 ++ (takeSymbol cs).2 = cs := by
  have parts := List.takeWhile_append_dropWhile (p := isSymbolChar) (l := cs)
  unfold takeSymbol
  dsimp only
  split
  next => rw [List.append_assoc, takeWords_parts, parts]
  next => exact parts

/-- A symbol is not empty. -/
theorem length_takeSymbol_lt {c : Char} (char : isSymbolChar c = true) (cs : List Char) :
    (takeSymbol (c :: cs)).2.length < (c :: cs).length := by
  have parts := congrArg List.length (takeSymbol_parts (c :: cs))
  have taken : (takeSymbol (c :: cs)).1 ≠ [] := by
    unfold takeSymbol
    rw [List.takeWhile_cons_of_pos char]
    dsimp only
    split <;> simp
  have positive := List.length_pos_iff.mpr taken
  rw [List.length_append] at parts
  omega

/-! ### The parts of an exponent -/

/-- Whether a sign stands at the head of a text, counted, and the text behind it. -/
def stripSign (sign : Char) : List Char → Nat × List Char
  | [] => (0, [])
  | c :: cs => if c = sign then (1, cs) else (0, c :: cs)

theorem plainExponent?_eq (cs : List Char) : plainExponent? cs =
    let caret := stripSign '^' cs
    let minus := stripSign '-' caret.2
    let digits := minus.2.takeWhile Text.isDecimal
    if digits.isEmpty then none
    else some ⟨caret.1 + minus.1 + digits.length, minus.1 = 1, digits⟩ := by
  match cs with
  | [] => rfl
  | c :: cs =>
    by_cases caret : c = '^'
    · subst caret
      cases cs with
      | nil => rfl
      | cons d cs => by_cases minus : d = '-' <;> simp [plainExponent?, stripSign, minus]
    · by_cases minus : c = '-' <;> simp [plainExponent?, stripSign, caret, minus]

theorem raisedExponent?_eq (cs : List Char) : raisedExponent? cs =
    let minus := stripSign '⁻' cs
    let digits := minus.2.takeWhile Text.isSuperscriptDigit
    if digits.isEmpty then none
    else some ⟨minus.1 + digits.length, minus.1 = 1, digits.map Text.lower⟩ := by
  match cs with
  | [] => rfl
  | c :: cs =>
    by_cases same : c = '⁻'
    · subst same
      simp [raisedExponent?, stripSign]
    · simp [raisedExponent?, stripSign, same]

theorem stripSign_length (sign : Char) (cs : List Char) :
    (stripSign sign cs).1 + (stripSign sign cs).2.length = cs.length := by
  cases cs with
  | nil => rfl
  | cons c cs =>
    by_cases same : c = sign
    · simp [stripSign, same, Nat.add_comm]
    · simp [stripSign, same]

theorem width_of_writtenExponent? {cs : List Char} {e : WrittenExponent}
    (written : writtenExponent? cs = some e) : e.width ≤ cs.length := by
  unfold writtenExponent? at written
  split at written
  next plain =>
    obtain rfl := Option.some.inj written
    rw [plainExponent?_eq] at plain
    dsimp only at plain
    split at plain
    next => cases plain
    next =>
      obtain rfl := Option.some.inj plain
      have caret := stripSign_length '^' cs
      have minus := stripSign_length '-' (stripSign '^' cs).2
      have digits := (List.takeWhile_sublist Text.isDecimal (l := (stripSign '-' (stripSign '^' cs).2).2)).length_le
      dsimp only
      omega
  next =>
    rw [raisedExponent?_eq] at written
    dsimp only at written
    split at written
    next => cases written
    next =>
      obtain rfl := Option.some.inj written
      have minus := stripSign_length '⁻' cs
      have digits := (List.takeWhile_sublist Text.isSuperscriptDigit (l := (stripSign '⁻' cs).2)).length_le
      dsimp only
      omega

/-- An exponent that is read is written in the text with a single digit. -/
theorem writtenExponent?_of_readExponent {cs : List Char} {negative : Bool} {digit : Char} {width : Nat}
    (read : readExponent cs = .ok (some (negative, digit, width))) :
    writtenExponent? cs = some ⟨width, negative, [digit]⟩ := by
  have ofSingle {e : WrittenExponent} (written : writtenExponent? cs = some e)
      (single : readExponent.single e = .ok (some (negative, digit, width))) :
      writtenExponent? cs = some ⟨width, negative, [digit]⟩ := by
    obtain ⟨width', negative', digits⟩ := e
    unfold readExponent.single at single
    split at single
    next d alone =>
      obtain rfl : digits = [d] := alone
      obtain ⟨rfl, rfl, rfl⟩ := by simpa using single
      exact written
    next => cases single
  unfold readExponent at read
  split at read
  next =>
    split at read
    next => split at read <;> cases read
    next => cases read
  next written =>
    split at read
    next =>
      split at read
      next => cases read
      next => exact ofSingle written read
    next => exact ofSingle written read

/-- An exponent that is read stands in the text. -/
theorem width_of_readExponent {cs : List Char} {negative : Bool} {digit : Char} {width : Nat}
    (read : readExponent cs = .ok (some (negative, digit, width))) : width ≤ cs.length :=
  width_of_writtenExponent? (writtenExponent?_of_readExponent read)

/-! ### Exponents in front of something else -/

/-- A text that no exponent before it goes on with. -/
def EndsExponent (rest : List Char) : Prop := ∀ c, rest.head? = some c → isExponentChar c = false

section
variable {rest : List Char} (ends : EndsExponent rest) (cs : List Char)
include ends

theorem EndsExponent.takeWhile_isDecimal :
    (cs ++ rest).takeWhile Text.isDecimal = cs.takeWhile Text.isDecimal := by
  refine takeWhile_append_of_head fun c head => ?_
  have kind := ends c head
  simp only [isExponentChar, Text.isDigit, Bool.or_eq_false_iff] at kind
  exact kind.1.1.1

theorem EndsExponent.takeWhile_isSuperscriptDigit :
    (cs ++ rest).takeWhile Text.isSuperscriptDigit = cs.takeWhile Text.isSuperscriptDigit := by
  refine takeWhile_append_of_head fun c head => ?_
  have kind := ends c head
  simp only [isExponentChar, Bool.or_eq_false_iff] at kind
  simp [Text.isSuperscriptDigit, kind.1.2]

theorem EndsExponent.stripSign {sign : Char} (announces : sign ∈ exponentSigns) :
    stripSign sign (cs ++ rest) =
      ((Scanner.stripSign sign cs).1, (Scanner.stripSign sign cs).2 ++ rest) := by
  cases cs with
  | nil =>
    cases rest with
    | nil => rfl
    | cons c rest =>
      have other : c ≠ sign := by
        rintro rfl
        have kind := ends c rfl
        simp [isExponentChar, announces] at kind
      simp [Scanner.stripSign, other]
  | cons c cs =>
    by_cases same : c = sign <;> simp [Scanner.stripSign, same]

theorem EndsExponent.writtenExponent? : writtenExponent? (cs ++ rest) = Scanner.writtenExponent? cs := by
  have plain : plainExponent? (cs ++ rest) = plainExponent? cs := by
    simp only [plainExponent?_eq, ends.stripSign _ (show '^' ∈ exponentSigns by decide),
      ends.stripSign _ (show '-' ∈ exponentSigns by decide), ends.takeWhile_isDecimal]
  have raised : raisedExponent? (cs ++ rest) = raisedExponent? cs := by
    simp only [raisedExponent?_eq, ends.stripSign _ (show '⁻' ∈ exponentSigns by decide),
      ends.takeWhile_isSuperscriptDigit]
  rw [Scanner.writtenExponent?, Scanner.writtenExponent?, plain, raised]

/-- An exponent is read alike whatever ends it. -/
theorem EndsExponent.readExponent_append : readExponent (cs ++ rest) = readExponent cs := by
  unfold readExponent
  rw [ends.writtenExponent? cs]
  split
  next =>
    cases cs with
    | nil =>
      cases rest with
      | nil => rfl
      | cons c rest =>
        have kind := ends c rfl
        simp only [isExponentChar, Bool.or_eq_false_iff] at kind
        rw [List.nil_append]
        dsimp only
        rw [if_neg (by rw [kind.2]; exact Bool.false_ne_true)]
    | cons c cs => rfl
  next e written =>
    rw [List.drop_append_of_le_length (width_of_writtenExponent? written)]
    cases left : cs.drop e.width with
    | nil =>
      cases rest with
      | nil => rfl
      | cons c rest =>
        have kind := ends c rfl
        simp only [isExponentChar, Bool.or_eq_false_iff] at kind
        simp [kind.1.1, kind.1.2]
    | cons c cs => rfl

end

/-! ### The relation and the scanner -/

/-- The scanner, also right behind a symbol. -/
def scanFrom (behindSymbol : Bool) (fuel position : Nat) (cs : List Char) :
    Except SyntaxError (List Token) :=
  if behindSymbol then
    match readExponent cs with
    | .error fault => .error ⟨fault, position⟩
    | .ok none => scan fuel position cs
    | .ok (some (negative, digit, width)) =>
      (scan fuel (position + width) (cs.drop width)).map (⟨.exponent negative digit, position⟩ :: ·)
  else scan fuel position cs

/-- The step at the first character of a symbol. -/
theorem scan_symbolChar {c : Char} {cs : List Char} (visible : Text.isBlank c = false)
    (plain : operator? c = none) (char : isSymbolChar c = true) (fuel position : Nat) :
    scan (fuel + 1) position (c :: cs) =
      (scanFrom true fuel (position + (takeSymbol (c :: cs)).1.length) (takeSymbol (c :: cs)).2).map
        (⟨.symbol (String.ofList (takeSymbol (c :: cs)).1), position⟩ :: ·) := by
  rw [scan, scanFrom]
  simp only [visible, plain, char, Bool.false_eq_true, if_false, if_true]
  rcases readExponent (takeSymbol (c :: cs)).2 with fault | _ | ⟨negative, digit, width⟩
  · rfl
  · rfl
  · dsimp only
    cases scan fuel _ ((takeSymbol (c :: cs)).2.drop width) <;> rfl

/-- What the scanner accepts right behind a symbol lexes, if all that it accepts elsewhere does. -/
theorem lexes_of_scanFrom {fuel : Nat}
    (elsewhere : ∀ {position cs tokens}, cs.length ≤ fuel → scan fuel position cs = .ok tokens →
      Lexes false cs (tokens.map (·.lexeme)))
    {position : Nat} {cs : List Char} {tokens : List Token} (room : cs.length ≤ fuel)
    (scanned : scanFrom true fuel position cs = .ok tokens) :
    Lexes true cs (tokens.map (·.lexeme)) := by
  rw [scanFrom, if_pos rfl] at scanned
  split at scanned
  next => cases scanned
  next none => exact .bare none (elsewhere room scanned)
  next negative digit width written =>
    obtain ⟨more, given, rfl⟩ := map_eq_ok.mp scanned
    have shorter : (cs.drop width).length ≤ fuel := by
      rw [List.length_drop]
      omega
    exact .exponent written (elsewhere shorter given)

/-- What the scanner accepts lexes into its lexemes. -/
theorem lexes_of_scan {fuel position : Nat} {cs : List Char} {tokens : List Token}
    (room : cs.length ≤ fuel) (scanned : scan fuel position cs = .ok tokens) :
    Lexes false cs (tokens.map (·.lexeme)) := by
  induction fuel generalizing position cs tokens with
  | zero =>
    obtain rfl := List.length_eq_zero_iff.mp (Nat.le_zero.mp room)
    rw [scan] at scanned
    obtain rfl := Except.ok.inj scanned
    exact .finish
  | succ fuel ih =>
    cases cs with
    | nil =>
      rw [scan] at scanned
      obtain rfl := Except.ok.inj scanned
      exact .finish
    | cons c cs =>
      have room' : cs.length ≤ fuel := by simpa using room
      cases visible : Text.isBlank c with
      | true =>
        rw [scan, if_pos visible] at scanned
        exact .blank visible (ih room' scanned)
      | false =>
        cases sign : operator? c with
        | some lexeme =>
          simp only [scan, visible, sign, Bool.false_eq_true, if_false] at scanned
          obtain ⟨more, given, rfl⟩ := map_eq_ok.mp scanned
          exact .operator visible sign (ih room' given)
        | none =>
          cases char : isSymbolChar c with
          | false => simp [scan, visible, sign, char] at scanned
          | true =>
            rw [scan_symbolChar visible sign char] at scanned
            obtain ⟨more, given, rfl⟩ := map_eq_ok.mp scanned
            have shorter : (takeSymbol (c :: cs)).2.length ≤ fuel := by
              have less := length_takeSymbol_lt char cs
              omega
            exact .symbol visible sign char (lexes_of_scanFrom ih shorter given)

/-- A text that lexes is accepted by the scanner, wherever it stands. -/
theorem scanFrom_of_lexes {behindSymbol : Bool} {cs : List Char} {lexemes : List Lexeme}
    (lexes : Lexes behindSymbol cs lexemes) {fuel : Nat} (position : Nat) (room : cs.length ≤ fuel) :
    ∃ tokens, scanFrom behindSymbol fuel position cs = .ok tokens ∧
      tokens.map (·.lexeme) = lexemes := by
  induction lexes generalizing fuel position with
  | finish =>
    refine ⟨[⟨.finish, position⟩], ?_, rfl⟩
    rw [scanFrom, if_neg (by decide), scan]
  | @blank c cs lexemes blank more ih =>
    obtain ⟨fuel, rfl⟩ : ∃ n, fuel = n + 1 := ⟨fuel - 1, by simp at room; omega⟩
    obtain ⟨tokens, scanned, same⟩ := ih (position + 1) (show cs.length ≤ fuel by simpa using room)
    refine ⟨tokens, ?_, same⟩
    rw [scanFrom, if_neg (by decide)] at scanned ⊢
    rw [scan, if_pos blank, scanned]
  | @operator c cs lexeme lexemes visible sign more ih =>
    obtain ⟨fuel, rfl⟩ : ∃ n, fuel = n + 1 := ⟨fuel - 1, by simp at room; omega⟩
    obtain ⟨tokens, scanned, same⟩ := ih (position + 1) (show cs.length ≤ fuel by simpa using room)
    refine ⟨⟨lexeme, position⟩ :: tokens, ?_, by rw [List.map_cons, same]⟩
    rw [scanFrom, if_neg (by decide)] at scanned ⊢
    simp [scan, visible, sign, scanned, Except.map]
  | @symbol c cs lexemes visible plain char more ih =>
    obtain ⟨fuel, rfl⟩ : ∃ n, fuel = n + 1 := ⟨fuel - 1, by simp at room; omega⟩
    have less := length_takeSymbol_lt char cs
    have shorter : (takeSymbol (c :: cs)).2.length ≤ fuel := by omega
    obtain ⟨tokens, scanned, same⟩ := ih (position + (takeSymbol (c :: cs)).1.length) shorter
    refine ⟨⟨.symbol (String.ofList (takeSymbol (c :: cs)).1), position⟩ :: tokens, ?_, by
      rw [List.map_cons, same]⟩
    rw [scanFrom, if_neg (by decide), scan_symbolChar visible plain char, scanned]
    rfl
  | bare none more ih =>
    obtain ⟨tokens, scanned, same⟩ := ih position room
    rw [scanFrom, if_neg (by decide)] at scanned
    exact ⟨tokens, by rw [scanFrom, if_pos rfl, none, ← scanned], same⟩
  | @exponent cs negative digit width lexemes written more ih =>
    have shorter : (cs.drop width).length ≤ fuel := by
      rw [List.length_drop]
      omega
    obtain ⟨tokens, scanned, same⟩ := ih (position + width) shorter
    rw [scanFrom, if_neg (by decide)] at scanned
    refine ⟨⟨.exponent negative digit, position⟩ :: tokens, ?_, by rw [List.map_cons, same]⟩
    rw [scanFrom, if_pos rfl, written]
    dsimp only
    rw [scanned]
    rfl

/-! ### Texts that differ in their tails -/

/-- The lexemes say the same: multiplication signs are worth the same, and so are the digits of one
value. -/
inductive Alike : Lexeme → Lexeme → Prop
  | refl (lexeme : Lexeme) : Alike lexeme lexeme
  | times (sign sign' : Char) : Alike (.times sign) (.times sign')
  | exponent (negative : Bool) {digit digit' : Char}
      (value : Text.decimalValue? digit = Text.decimalValue? digit') :
      Alike (.exponent negative digit) (.exponent negative digit')

/-- However the first tail lexes, the second lexes alike. -/
def TailsAlike (tail tail' : List Char) : Prop :=
  ∀ behindSymbol lexemes, Lexes behindSymbol tail lexemes →
    ∃ lexemes', Lexes behindSymbol tail' lexemes' ∧ List.Forall₂ Alike lexemes lexemes'

/-- No exponent in front goes on with the tail: the tail does not let it, or a symbol stands between
them. -/
def Shuts (front tail : List Char) : Prop :=
  EndsExponent tail ∨ ∀ c, front.getLast? = some c → isSymbolChar c = true

theorem Shuts.suffix {front tail behind : List Char} (shuts : Shuts front tail)
    (suffix : behind <:+ front) : Shuts behind tail := by
  refine shuts.imp_right fun symbol c last => symbol c ?_
  obtain ⟨before, rfl⟩ := suffix
  rw [List.getLast?_append, last]
  rfl

theorem Shuts.readExponent {front tail : List Char} (shuts : Shuts front tail)
    (given : front ≠ []) : readExponent (front ++ tail) = readExponent front := by
  rcases shuts with ends | symbol
  · exact ends.readExponent_append front
  · obtain ⟨before, c, rfl⟩ := (List.eq_nil_or_concat front).resolve_left given
    have char : isSymbolChar c = true := symbol c (by simp)
    have ends (rest : List Char) : EndsExponent (c :: rest) := fun d head =>
      Option.some.inj head ▸ not_isExponentChar_of_isSymbolChar char
    rw [List.concat_eq_append, List.append_assoc, List.singleton_append,
      (ends tail).readExponent_append, (ends []).readExponent_append]

theorem forall₂_alike_refl (lexemes : List Lexeme) : List.Forall₂ Alike lexemes lexemes :=
  List.forall₂_same.mpr fun lexeme _ => .refl lexeme

/-- What begins a text is a symbol whatever word ends the text. -/
theorem Lexes.symbol_append {tail : List Char} (ends : EndsWord tail) {c : Char} {cs : List Char}
    {lexemes : List Lexeme} (visible : Text.isBlank c = false) (plain : operator? c = none)
    (char : isSymbolChar c = true) (more : Lexes true ((takeSymbol (c :: cs)).2 ++ tail) lexemes) :
    Lexes false (c :: cs ++ tail) (.symbol (String.ofList (takeSymbol (c :: cs)).1) :: lexemes) := by
  have taken := takeSymbol_of_endsWord ends (c :: cs)
  have step := @Lexes.symbol c (cs ++ tail) lexemes visible plain char
  rw [← List.cons_append, taken] at step
  exact step more

/-- An exponent that begins a text does so whatever ends the text, unless it goes on there. -/
theorem Lexes.exponent_append {front tail : List Char} (shuts : Shuts front tail) (given : front ≠ [])
    {negative : Bool} {digit : Char} {width : Nat} {lexemes : List Lexeme}
    (written : readExponent front = .ok (some (negative, digit, width)))
    (more : Lexes false (front.drop width ++ tail) lexemes) :
    Lexes true (front ++ tail) (.exponent negative digit :: lexemes) := by
  refine @Lexes.exponent _ negative digit width _ ?_ ?_
  · rw [shuts.readExponent given, written]
  · rwa [List.drop_append_of_le_length (width_of_readExponent written)]

/-- Texts with tails that are alike lex alike. -/
theorem lexes_append {tail tail' : List Char} (tails : TailsAlike tail tail')
    (ends : EndsWord tail) (ends' : EndsWord tail') {front : List Char} (shuts : Shuts front tail)
    (shuts' : Shuts front tail') : TailsAlike (front ++ tail) (front ++ tail') := by
  intro behindSymbol lexemes lexes
  generalize whole : front ++ tail = text at lexes
  induction lexes generalizing front with
  | finish =>
    obtain ⟨rfl, rfl⟩ := List.append_eq_nil_iff.mp whole
    exact tails false _ .finish
  | @blank c cs lexemes blank more ih =>
    cases front with
    | nil =>
      obtain rfl : tail = c :: cs := whole
      exact tails false _ (.blank blank more)
    | cons d front =>
      obtain ⟨rfl, behind⟩ := List.cons.inj whole
      have suffix := List.suffix_cons d front
      obtain ⟨others, lexes, alike⟩ := ih (shuts.suffix suffix) (shuts'.suffix suffix) behind
      exact ⟨others, .blank blank lexes, alike⟩
  | @operator c cs lexeme lexemes visible sign more ih =>
    cases front with
    | nil =>
      obtain rfl : tail = c :: cs := whole
      exact tails false _ (.operator visible sign more)
    | cons d front =>
      obtain ⟨rfl, behind⟩ := List.cons.inj whole
      have suffix := List.suffix_cons d front
      obtain ⟨others, lexes, alike⟩ := ih (shuts.suffix suffix) (shuts'.suffix suffix) behind
      exact ⟨lexeme :: others, .operator visible sign lexes, .cons (.refl lexeme) alike⟩
  | @symbol c cs lexemes visible plain char more ih =>
    cases front with
    | nil =>
      obtain rfl : tail = c :: cs := whole
      exact tails false _ (.symbol visible plain char more)
    | cons d front =>
      obtain ⟨rfl, behind⟩ := List.cons.inj whole
      have suffix : (takeSymbol (d :: front)).2 <:+ d :: front :=
        ⟨_, takeSymbol_parts (d :: front)⟩
      rw [← whole, takeSymbol_of_endsWord ends (d :: front)] at ih ⊢
      obtain ⟨others, lexes, alike⟩ := ih (shuts.suffix suffix) (shuts'.suffix suffix) rfl
      exact ⟨_, lexes.symbol_append ends' visible plain char, .cons (.refl _) alike⟩
  | @bare cs lexemes none more ih =>
    cases front with
    | nil =>
      obtain rfl : tail = cs := whole
      exact tails true _ (.bare none more)
    | cons d front =>
      obtain ⟨others, lexes, alike⟩ := ih shuts shuts' whole
      refine ⟨others, .bare ?_ lexes, alike⟩
      rw [shuts'.readExponent (List.cons_ne_nil d front), ← shuts.readExponent
        (List.cons_ne_nil d front), whole, none]
  | @exponent cs negative digit width lexemes written more ih =>
    cases front with
    | nil =>
      obtain rfl : tail = cs := whole
      exact tails true _ (.exponent written more)
    | cons d front =>
      subst whole
      rw [shuts.readExponent (List.cons_ne_nil d front)] at written
      have suffix := List.drop_suffix width (d :: front)
      rw [List.drop_append_of_le_length (width_of_readExponent written)] at ih
      obtain ⟨others, lexes, alike⟩ := ih (shuts.suffix suffix) (shuts'.suffix suffix) rfl
      exact ⟨_, lexes.exponent_append shuts' (List.cons_ne_nil d front) written,
        .cons (.refl _) alike⟩

end Metrology.Scanner
