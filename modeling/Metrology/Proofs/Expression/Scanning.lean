import Metrology.Expression.Scanner

/-!
# Scanning written text

A text that is put together from symbols, exponents and operators scans into the lexemes it was put
together from, provided that no part runs on into the next. A symbol ends where something stands
that no symbol goes on with, an exponent where a sign or a parenthesis stands.
-/
namespace Metrology.Scanner

theorem takeWhile_append_of_head {p : Char → Bool} {cs rest : List Char}
    (stop : ∀ c, rest.head? = some c → p c = false) :
    (cs ++ rest).takeWhile p = cs.takeWhile p := by
  induction cs with
  | nil =>
    cases rest with
    | nil => rfl
    | cons c r => simp [stop c rfl]
  | cons c r ih =>
    cases h : p c <;> simp [h, ih]

theorem dropWhile_append_of_head {p : Char → Bool} {cs rest : List Char}
    (stop : ∀ c, rest.head? = some c → p c = false) :
    (cs ++ rest).dropWhile p = cs.dropWhile p ++ rest := by
  induction cs with
  | nil =>
    cases rest with
    | nil => rfl
    | cons c r => simp [stop c rfl]
  | cons c r ih =>
    cases h : p c <;> simp [h, ih]

/-! ### Symbols -/

/-- A text that no symbol before it goes on with. -/
def EndsSymbol (rest : List Char) : Prop :=
  ∀ c, rest.head? = some c → isSymbolChar c = false ∧ c ≠ ' '

/-- A text that is read as one symbol, and begins with a character that begins nothing else. -/
def IsSymbol (w : List Char) : Prop :=
  takeSymbol w = (w, []) ∧
    ∃ c r, w = c :: r ∧ isSymbolChar c = true ∧ Text.isBlank c = false ∧ operator? c = none

instance decidableIsSymbol : (w : List Char) → Decidable (IsSymbol w)
  | [] => isFalse fun ⟨_, _, _, same, _⟩ => nomatch same
  | c :: r =>
    decidable_of_iff
      (takeSymbol (c :: r) = (c :: r, []) ∧ isSymbolChar c = true ∧ Text.isBlank c = false ∧
        operator? c = none)
      ⟨fun ⟨whole, first⟩ => ⟨whole, c, r, rfl, first⟩,
        fun ⟨whole, _, _, same, first⟩ =>
          ⟨whole, by obtain ⟨rfl, rfl⟩ := List.cons.inj same; exact first⟩⟩

theorem not_isAsciiLetter_of_not_isSymbolChar {c : Char} (h : isSymbolChar c = false) :
    Text.isAsciiLetter c = false := by
  cases letter : Text.isAsciiLetter c with
  | false => rfl
  | true => simp [isSymbolChar, Text.isLetter_of_isAsciiLetter letter] at h

/-- A text that no word before it goes on with, nor over a space. -/
def EndsWord (rest : List Char) : Prop :=
  (∀ c, rest.head? = some c → isSymbolChar c = false) ∧
    ∀ c r, rest = ' ' :: c :: r → Text.isAsciiLetter c = false

theorem EndsSymbol.endsWord {rest : List Char} (ends : EndsSymbol rest) : EndsWord rest :=
  ⟨fun c head => (ends c head).1, fun _ _ same => absurd rfl (ends ' ' (same ▸ rfl)).2⟩

/-- Where no further word stands, none is taken. -/
theorem takeWords_stop {cs : List Char}
    (stops : ∀ c r, cs = ' ' :: c :: r → Text.isAsciiLetter c = false) (n : Nat) :
    takeWords n cs = ([], cs) := by
  cases n with
  | zero => rfl
  | succ n =>
    unfold takeWords
    split
    next c r => rw [if_neg (by simp [stops c r rfl])]
    next => rfl

theorem takeWords_append {rest : List Char} (ends : EndsWord rest) (n : Nat) (r : List Char) :
    takeWords n (r ++ rest) = ((takeWords n r).1, (takeWords n r).2 ++ rest) := by
  have stop : ∀ c, rest.head? = some c → Text.isAsciiLetter c = false := fun c head =>
    not_isAsciiLetter_of_not_isSymbolChar (ends.1 c head)
  induction n generalizing r with
  | zero => rfl
  | succ n ih =>
    match r with
    | [] =>
      rw [List.nil_append, takeWords_stop ends.2, takeWords_stop (by simp)]
      rfl
    | [c] =>
      have stops : ∀ d r, [c] ++ rest = ' ' :: d :: r → Text.isAsciiLetter d = false :=
        fun d r same => stop d (congrArg List.head? (List.cons.inj same).2)
      rw [takeWords_stop stops, takeWords_stop (by simp)]
    | c :: d :: word =>
      by_cases further : c = ' ' ∧ Text.isAsciiLetter d = true
      · obtain ⟨rfl, letter⟩ := further
        rw [List.cons_append, List.cons_append, takeWords, takeWords, if_pos letter, if_pos letter]
        simp only [takeWhile_append_of_head stop, dropWhile_append_of_head stop, ih]
      · have stops (tail : List Char) (e : Char) (r : List Char)
            (same : c :: d :: tail = ' ' :: e :: r) : Text.isAsciiLetter e = false := by
          obtain ⟨rfl, behind⟩ := List.cons.inj same
          obtain ⟨rfl, _⟩ := List.cons.inj behind
          exact Bool.eq_false_iff.mpr fun letter => further ⟨rfl, letter⟩
        rw [List.cons_append, List.cons_append, takeWords_stop (stops _), takeWords_stop (stops _)]
        rfl

/-- A symbol ends in front of what it does not go on with. -/
theorem takeSymbol_of_endsWord {rest : List Char} (ends : EndsWord rest) (cs : List Char) :
    takeSymbol (cs ++ rest) = ((takeSymbol cs).1, (takeSymbol cs).2 ++ rest) := by
  unfold takeSymbol
  simp only [takeWhile_append_of_head ends.1, dropWhile_append_of_head ends.1]
  split
  next => simp only [takeWords_append ends]
  next => rfl

/-- A symbol ends where it should, whatever ends it. -/
theorem takeSymbol_append {w rest : List Char} (symbol : IsSymbol w) (ends : EndsSymbol rest) :
    takeSymbol (w ++ rest) = (w, rest) := by
  rw [takeSymbol_of_endsWord ends.endsWord, symbol.1, List.nil_append]

/-- Symbol characters make a symbol. -/
theorem isSymbol_of_all {c : Char} {r : List Char} (all : (c :: r).all isSymbolChar = true)
    (blank : Text.isBlank c = false) (sign : operator? c = none) : IsSymbol (c :: r) := by
  refine ⟨?_, c, r, rfl, List.all_eq_true.mp all c List.mem_cons_self, blank, sign⟩
  have taken : ((c :: r) ++ []).takeWhile isSymbolChar = (c :: r) ++ [].takeWhile isSymbolChar :=
    List.takeWhile_append_of_pos (List.all_eq_true.mp all)
  have dropped : ((c :: r) ++ []).dropWhile isSymbolChar = [].dropWhile isSymbolChar :=
    List.dropWhile_append_of_pos (List.all_eq_true.mp all)
  rw [List.append_nil] at taken dropped
  unfold takeSymbol
  simp only [taken, dropped]
  split <;> simp [takeWords, maxWords]

/-! ### Exponents -/

/-- The characters that are an operator or a parenthesis by themselves. -/
def operators : List Char := ['*', '.', '·', '⋅', '/', '(', ')']

theorem forall_operators {P : Char → Prop} [DecidablePred P]
    (checked : operators.all (fun c => decide (P c)) = true) {c : Char} (mem : c ∈ operators) :
    P c :=
  of_decide_eq_true (List.all_eq_true.mp checked c mem)

/-- A text before which a term ends: it is empty or begins with an operator. -/
def EndsTerm (rest : List Char) : Prop := ∀ c, rest.head? = some c → c ∈ operators

theorem endsTerm_nil : EndsTerm [] := fun _ h => nomatch h

theorem endsTerm_cons {c : Char} {rest : List Char} (h : c ∈ operators) : EndsTerm (c :: rest) :=
  fun _ head => Option.some.inj head ▸ h

theorem EndsTerm.endsSymbol {rest : List Char} (ends : EndsTerm rest) : EndsSymbol rest :=
  fun c head => forall_operators (P := fun c => isSymbolChar c = false ∧ c ≠ ' ')
    (by decide +kernel) (ends c head)

theorem EndsTerm.not_digit {rest : List Char} (ends : EndsTerm rest) {c : Char}
    (head : rest.head? = some c) :
    Text.isDigit c = false ∧ Text.isSuperscript c = false :=
  forall_operators (P := fun c => Text.isDigit c = false ∧ Text.isSuperscript c = false)
    (by decide +kernel) (ends c head)

theorem EndsTerm.takeWhile_isDecimal {rest : List Char} (ends : EndsTerm rest) (cs : List Char) :
    (cs ++ rest).takeWhile Text.isDecimal = cs.takeWhile Text.isDecimal :=
  takeWhile_append_of_head fun c head =>
    forall_operators (P := fun c => Text.isDecimal c = false) (by decide +kernel) (ends c head)

theorem EndsTerm.takeWhile_isSuperscriptDigit {rest : List Char} (ends : EndsTerm rest)
    (cs : List Char) :
    (cs ++ rest).takeWhile Text.isSuperscriptDigit = cs.takeWhile Text.isSuperscriptDigit :=
  takeWhile_append_of_head fun c head =>
    forall_operators (P := fun c => Text.isSuperscriptDigit c = false) (by decide) (ends c head)

/-- What ends a term has no exponent of its own. -/
theorem EndsTerm.readExponent {rest : List Char} (ends : EndsTerm rest) :
    readExponent rest = .ok none := by
  cases rest with
  | nil => rfl
  | cons c r =>
    have plain : c ≠ '^' ∧ c ≠ '-' ∧ c ≠ '⁻' ∧ c ∉ exponentSigns :=
      forall_operators (P := fun c => c ≠ '^' ∧ c ≠ '-' ∧ c ≠ '⁻' ∧ c ∉ exponentSigns) (by decide)
        (ends c rfl)
    obtain ⟨caret, minus, raisedMinus, sign⟩ := plain
    have digits := ends.takeWhile_isDecimal []
    have raised := ends.takeWhile_isSuperscriptDigit []
    simp only [List.nil_append, List.takeWhile_nil] at digits raised
    simp [Scanner.readExponent, writtenExponent?, plainExponent?, raisedExponent?, caret, minus,
      raisedMinus, sign, digits, raised]

/-- A text that is read as one exponent, whatever ends the term behind it. -/
structure IsExponent (cs : List Char) (negative : Bool) (digit : Char) : Prop where
  read : ∀ rest, EndsTerm rest →
    readExponent (cs ++ rest) = .ok (some (negative, digit, cs.length))
  endsSymbol : ∀ rest, EndsSymbol (cs ++ rest)

theorem isExponent_of_written {cs : List Char} {negative : Bool} {digit : Char}
    (written : ∀ rest, EndsTerm rest →
      writtenExponent? (cs ++ rest) = some ⟨cs.length, negative, [digit]⟩)
    (ends : ∀ rest, EndsSymbol (cs ++ rest)) : IsExponent cs negative digit where
  endsSymbol := ends
  read rest ending := by
    simp only [readExponent, written rest ending, List.drop_left]
    split
    next c head =>
      obtain ⟨digit, script⟩ := ending.not_digit head
      simp [digit, script, readExponent.single]
    next => rfl

theorem isExponent_digit {d : Char} (decimal : Text.isDecimal d = true)
    (sign : d ≠ '^' ∧ d ≠ '-' ∧ isSymbolChar d = false ∧ d ≠ ' ') : IsExponent [d] false d := by
  obtain ⟨caret, minus, symbol, blank⟩ := sign
  refine isExponent_of_written (fun rest ends => ?_) (fun rest c head => ?_)
  · have digits := ends.takeWhile_isDecimal [d]
    simp only [List.cons_append, List.nil_append] at digits
    simp [writtenExponent?, plainExponent?, caret, minus, digits, decimal]
  · obtain rfl := Option.some.inj head
    exact ⟨symbol, blank⟩

theorem isExponent_minus {d : Char} (decimal : Text.isDecimal d = true) :
    IsExponent ['-', d] true d := by
  refine isExponent_of_written (fun rest ends => ?_) (fun rest c head => ?_)
  · have digits := ends.takeWhile_isDecimal [d]
    simp only [List.cons_append, List.nil_append] at digits
    simp [writtenExponent?, plainExponent?, digits, decimal]
  · obtain rfl := Option.some.inj head
    decide

theorem isExponent_raised {d : Char} (script : Text.isSuperscriptDigit d = true)
    (sign : d ≠ '^' ∧ d ≠ '-' ∧ d ≠ '⁻' ∧ isSymbolChar d = false ∧ d ≠ ' ')
    (plain : Text.isDecimal d = false) : IsExponent [d] false (Text.lower d) := by
  obtain ⟨caret, minus, raisedMinus, symbol, blank⟩ := sign
  refine isExponent_of_written (fun rest ends => ?_) (fun rest c head => ?_)
  · have digits := ends.takeWhile_isSuperscriptDigit [d]
    simp only [List.cons_append, List.nil_append] at digits
    simp [writtenExponent?, plainExponent?, raisedExponent?, caret, minus, raisedMinus, digits,
      script, plain]
  · obtain rfl := Option.some.inj head
    exact ⟨symbol, blank⟩

theorem isExponent_raisedMinus {d : Char} (script : Text.isSuperscriptDigit d = true) :
    IsExponent ['⁻', d] true (Text.lower d) := by
  refine isExponent_of_written (fun rest ends => ?_) (fun rest c head => ?_)
  · have digits := ends.takeWhile_isSuperscriptDigit [d]
    have minus : Text.isDecimal '⁻' = false := by decide +kernel
    simp only [List.cons_append, List.nil_append] at digits
    simp [writtenExponent?, plainExponent?, raisedExponent?, digits, script, minus]
  · obtain rfl := Option.some.inj head
    decide +kernel

/-! ### Whole texts -/

/-- The text scans into these lexemes, wherever it stands. -/
def Scans (cs : List Char) (lexemes : List Lexeme) : Prop :=
  ∀ fuel position, cs.length ≤ fuel →
    ∃ tokens, scan fuel position cs = .ok tokens ∧ tokens.map (·.lexeme) = lexemes

theorem scans_nil : Scans [] [.finish] := by
  intro fuel position _
  refine ⟨[⟨.finish, position⟩], ?_, rfl⟩
  unfold scan
  rfl

theorem scans_operator (c : Char) {lexeme : Lexeme} {cs : List Char} {lexemes : List Lexeme}
    (sign : operator? c = some lexeme) (visible : Text.isBlank c = false)
    (more : Scans cs lexemes) : Scans (c :: cs) (lexeme :: lexemes) := by
  intro fuel position room
  obtain ⟨fuel, rfl⟩ : ∃ n, fuel = n + 1 := ⟨fuel - 1, by simp at room; omega⟩
  obtain ⟨tokens, scanned, read⟩ := more fuel (position + 1) (by simpa using room)
  refine ⟨⟨lexeme, position⟩ :: tokens, ?_, by simp [read]⟩
  simp [scan, visible, sign, scanned, Except.map]

/-- The first step on a text that begins with a symbol. -/
theorem scan_symbol {w rest : List Char} (symbol : IsSymbol w) (ends : EndsSymbol rest)
    (fuel position : Nat) :
    scan (fuel + 1) position (w ++ rest) =
      match readExponent rest with
      | .error fault => .error ⟨fault, position + w.length⟩
      | .ok none =>
        (scan fuel (position + w.length) rest).map (⟨.symbol (String.ofList w), position⟩ :: ·)
      | .ok (some (negative, digit, width)) =>
        (scan fuel (position + w.length + width) (rest.drop width)).map fun tokens =>
          ⟨.symbol (String.ofList w), position⟩
            :: ⟨.exponent negative digit, position + w.length⟩ :: tokens := by
  obtain ⟨c, r, rfl, char, visible, sign⟩ := symbol.2
  have taken := takeSymbol_append symbol ends
  rw [List.cons_append] at taken ⊢
  rcases outcome : readExponent rest with fault | _ | ⟨negative, digit, width⟩ <;>
    simp [scan, visible, sign, char, taken, outcome]

theorem scans_symbol {w cs : List Char} {lexemes : List Lexeme} (symbol : IsSymbol w)
    (ends : EndsTerm cs) (more : Scans cs lexemes) :
    Scans (w ++ cs) (.symbol (String.ofList w) :: lexemes) := by
  intro fuel position room
  have length : 0 < w.length := by
    obtain ⟨c, r, rfl, _⟩ := symbol.2
    simp
  rw [List.length_append] at room
  obtain ⟨fuel, rfl⟩ : ∃ n, fuel = n + 1 := ⟨fuel - 1, by omega⟩
  obtain ⟨tokens, scanned, read⟩ := more fuel (position + w.length) (by omega)
  refine ⟨⟨.symbol (String.ofList w), position⟩ :: tokens, ?_, by simp [read]⟩
  rw [scan_symbol symbol ends.endsSymbol, ends.readExponent]
  simp [scanned, Except.map]

theorem scans_exponent {w e cs : List Char} {negative : Bool} {digit : Char}
    {lexemes : List Lexeme} (symbol : IsSymbol w) (exponent : IsExponent e negative digit)
    (ends : EndsTerm cs) (more : Scans cs lexemes) :
    Scans (w ++ (e ++ cs)) (.symbol (String.ofList w) :: .exponent negative digit :: lexemes) := by
  intro fuel position room
  have length : 0 < w.length := by
    obtain ⟨c, r, rfl, _⟩ := symbol.2
    simp
  rw [List.length_append, List.length_append] at room
  obtain ⟨fuel, rfl⟩ : ∃ n, fuel = n + 1 := ⟨fuel - 1, by omega⟩
  obtain ⟨tokens, scanned, read⟩ := more fuel (position + w.length + e.length) (by omega)
  refine ⟨⟨.symbol (String.ofList w), position⟩
    :: ⟨.exponent negative digit, position + w.length⟩ :: tokens, ?_, by simp [read]⟩
  rw [scan_symbol symbol (exponent.endsSymbol cs), exponent.read cs ends]
  simp [scanned, Except.map]

end Metrology.Scanner
