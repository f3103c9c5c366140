import Metrology.Proofs.Expression.Acceptance
import Metrology.Proofs.Expression.Lexing
import Metrology.Proofs.Expression.Reading

/-!
# Respelling

White space at an end of an expression or next to an operator, the choice of a multiplication sign and
the form of an exponent do not matter: an expression that is read can be respelled in any of these
ways, time and again, and is read as the same symbols with the same exponents.
-/
namespace Metrology

namespace Scanner

/-! ### Spellings of an exponent -/

/-- The text is a spelling of an exponent with this sign and value: in plain digits of some script, the
same behind a caret, or in superscripts. -/
inductive Spells (negative : Bool) (n : Nat) : List Char → Prop
  | plain {d : Char} (value : Text.decimalValue? d = some n) :
      Spells negative n (if negative then ['-', d] else [d])
  | caret {d : Char} (value : Text.decimalValue? d = some n) :
      Spells negative n ('^' :: if negative then ['-', d] else [d])
  | raised {d : Char} (script : Text.isSuperscriptDigit d = true)
      (value : Text.decimalValue? (Text.lower d) = some n) :
      Spells negative n (if negative then ['⁻', d] else [d])

variable {negative : Bool} {n : Nat} {e e' tail tail' : List Char}

theorem not_isDecimal_of_isSuperscriptDigit {d : Char} (script : Text.isSuperscriptDigit d = true) :
    Text.isDecimal d = false := by
  obtain ⟨p, mem, same⟩ := List.any_eq_true.mp (Bool.and_eq_true_iff.mp script).1
  have apart : Text.superscripts.all (fun p => !Text.isDecimal p.2) = true := by decide +kernel
  have own := List.all_eq_true.mp apart p mem
  rw [of_decide_eq_true same] at own
  simpa using own

theorem isExponentChar_of_isDecimal {d : Char} (decimal : Text.isDecimal d = true) :
    isExponentChar d = true := by
  simp [isExponentChar, Text.isDigit, decimal]

theorem isExponentChar_of_isSuperscriptDigit {d : Char} (script : Text.isSuperscriptDigit d = true) :
    isExponentChar d = true := by
  simp [isExponentChar, (Bool.and_eq_true_iff.mp script).1]

/-- A spelling begins with a character of exponents. -/
theorem Spells.head (spells : Spells negative n e) :
    ∃ c r, e = c :: r ∧ isExponentChar c = true := by
  have decimal {d : Char} (value : Text.decimalValue? d = some n) : isExponentChar d = true :=
    isExponentChar_of_isDecimal (by rw [Text.isDecimal, value]; rfl)
  cases spells with
  | @plain d value =>
    cases negative with
    | true => exact ⟨'-', [d], rfl, by decide +kernel⟩
    | false => exact ⟨d, [], rfl, decimal value⟩
  | caret => exact ⟨'^', _, rfl, by decide +kernel⟩
  | @raised d script =>
    cases negative with
    | true => exact ⟨'⁻', [d], rfl, by decide +kernel⟩
    | false => exact ⟨d, [], rfl, isExponentChar_of_isSuperscriptDigit script⟩

/-- Characters that must not stand behind an exponent. -/
def isDigitLike (c : Char) : Bool := Text.isDigit c || Text.isSuperscript c

theorem isDigitLike_of_isDecimal {c : Char} (decimal : Text.isDecimal c = true) :
    isDigitLike c = true := by
  simp [isDigitLike, Text.isDigit, decimal]

theorem isDigitLike_of_isSuperscriptDigit {c : Char} (script : Text.isSuperscriptDigit c = true) :
    isDigitLike c = true := by
  simp [isDigitLike, (Bool.and_eq_true_iff.mp script).1]

theorem writtenExponent?_of_plain {d : Char} (value : Text.decimalValue? d = some n)
    (caret negative : Bool) (tail : List Char) :
    let e := (if caret then ['^'] else []) ++ if negative then ['-', d] else [d]
    writtenExponent? (e ++ tail) =
      some ⟨e.length + (tail.takeWhile Text.isDecimal).length, negative,
        d :: tail.takeWhile Text.isDecimal⟩ := by
  have decimal : Text.isDecimal d = true := by rw [Text.isDecimal, value]; rfl
  have notCaret : d ≠ '^' := by
    rintro rfl
    exact absurd decimal (by decide +kernel)
  have notMinus : d ≠ '-' := by
    rintro rfl
    exact absurd decimal (by decide +kernel)
  cases caret <;> cases negative <;>
    simp [writtenExponent?, plainExponent?_eq, stripSign, notCaret, notMinus, decimal] <;> omega

theorem writtenExponent?_of_raised {d : Char} (script : Text.isSuperscriptDigit d = true)
    (negative : Bool) (tail : List Char) :
    let e := if negative then ['⁻', d] else [d]
    writtenExponent? (e ++ tail) =
      some ⟨e.length + (tail.takeWhile Text.isSuperscriptDigit).length, negative,
        Text.lower d :: (tail.takeWhile Text.isSuperscriptDigit).map Text.lower⟩ := by
  have notDecimal := not_isDecimal_of_isSuperscriptDigit script
  have notMinus : d ≠ '⁻' := by
    rintro rfl
    exact absurd script (by decide)
  have others : d ≠ '^' ∧ d ≠ '-' := by
    constructor <;>
    · rintro rfl
      exact absurd script (by decide)
  have minus : Text.isDecimal '⁻' = false := by decide +kernel
  cases negative <;>
    simp [writtenExponent?, plainExponent?_eq, raisedExponent?_eq, stripSign, script, notDecimal,
      notMinus, others, minus] <;> omega

/-- A spelling is written in front of any text, but together with the digits behind it. -/
theorem Spells.written (spells : Spells negative n e) (tail : List Char) :
    ∃ (isMore : Char → Bool) (digit : Char) (more : List Char),
      (∀ c, isMore c = true → isDigitLike c = true) ∧ more.length = (tail.takeWhile isMore).length ∧
      Text.decimalValue? digit = some n ∧
      writtenExponent? (e ++ tail) = some ⟨e.length + more.length, negative, digit :: more⟩ := by
  cases spells with
  | @plain d value =>
    exact ⟨Text.isDecimal, d, _, fun c => isDigitLike_of_isDecimal, rfl, value,
      writtenExponent?_of_plain value false negative tail⟩
  | @caret d value =>
    exact ⟨Text.isDecimal, d, _, fun c => isDigitLike_of_isDecimal, rfl, value,
      writtenExponent?_of_plain value true negative tail⟩
  | @raised d script value =>
    have written := writtenExponent?_of_raised script negative tail
    rw [← List.length_map (f := Text.lower)] at written
    exact ⟨Text.isSuperscriptDigit, Text.lower d, _, fun c => isDigitLike_of_isSuperscriptDigit,
      List.length_map .., value, written⟩

/-- A spelling is read unless a digit stands behind it. -/
theorem Spells.read (spells : Spells negative n e)
    (ends : ∀ c, tail.head? = some c → isDigitLike c = false) :
    ∃ digit, Text.decimalValue? digit = some n ∧
      readExponent (e ++ tail) = .ok (some (negative, digit, e.length)) := by
  obtain ⟨isMore, digit, more, digits, length, value, written⟩ := spells.written tail
  have nothing : tail.takeWhile isMore = [] := by
    cases tail with
    | nil => rfl
    | cons c tail =>
      refine List.takeWhile_cons_of_neg fun isOne => ?_
      have none := ends c rfl
      rw [digits c isOne] at none
      cases none
  obtain rfl := List.length_eq_zero_iff.mp (length.trans (by rw [nothing]; rfl))
  refine ⟨digit, value, ?_⟩
  unfold readExponent
  rw [written]
  simp only [List.length_nil, Nat.add_zero, List.drop_left]
  cases head : tail.head? with
  | none => rfl
  | some c =>
    have kind := ends c head
    rw [isDigitLike] at kind
    simp [kind, readExponent.single]

/-- Where a digit stands behind a spelling, no exponent is read. -/
theorem Spells.ends (spells : Spells negative n e) {found : Option (Bool × Char × Nat)}
    (read : readExponent (e ++ tail) = .ok found) {c : Char} (head : tail.head? = some c) :
    isDigitLike c = false := by
  obtain ⟨isMore, digit, more, digits, length, value, written⟩ := spells.written tail
  unfold readExponent at read
  rw [written] at read
  cases more with
  | nil =>
    simp only [List.length_nil, Nat.add_zero, List.drop_left, head] at read
    rw [isDigitLike, Bool.eq_false_iff]
    intro isOne
    rw [if_pos isOne] at read
    cases read
  | cons d more =>
    dsimp only at read
    split at read
    next => split at read <;> cases read
    next => cases read

/-- All spellings of an exponent lex alike, whatever stands behind them. -/
theorem Spells.tailsAlike (spells : Spells negative n e) (spells' : Spells negative n e') :
    TailsAlike (e ++ tail) (e' ++ tail) := by
  intro behindSymbol lexemes lexes
  generalize whole : e ++ tail = text at lexes
  cases lexes with
  | bare none =>
    subst whole
    obtain ⟨_, _, read⟩ := spells.read fun c head => spells.ends none head
    rw [none] at read
    cases read
  | @exponent _ sign found width more written rest =>
    subst whole
    have ends := fun c head => spells.ends written (c := c) head
    obtain ⟨digit, value, read⟩ := spells.read ends
    obtain ⟨digit', value', read'⟩ := spells'.read ends
    obtain ⟨rfl, rfl, rfl⟩ : sign = negative ∧ found = digit ∧ width = e.length := by
      simpa using written.symm.trans read
    rw [List.drop_left] at rest
    refine ⟨.exponent sign digit' :: more, .exponent read' (by rwa [List.drop_left]), ?_⟩
    exact .cons (.exponent sign (value.trans value'.symm)) (forall₂_alike_refl more)
  | finish =>
    obtain ⟨c, r, rfl, _⟩ := spells.head
    cases whole
  | blank blank more =>
    obtain ⟨c, r, rfl, kind⟩ := spells.head
    obtain ⟨rfl, _⟩ := List.cons.inj whole
    rw [not_isBlank_of_isExponentChar kind] at blank
    cases blank
  | operator visible sign more =>
    obtain ⟨c, r, rfl, kind⟩ := spells.head
    obtain ⟨rfl, _⟩ := List.cons.inj whole
    rw [operator?_of_isExponentChar kind] at sign
    cases sign
  | symbol visible plain char more =>
    obtain ⟨c, r, rfl, kind⟩ := spells.head
    obtain ⟨rfl, _⟩ := List.cons.inj whole
    rw [not_isSymbolChar_of_isExponentChar kind] at char
    cases char

/-- No symbol in front goes on with a spelling. -/
theorem Spells.endsWord (spells : Spells negative n e) (tail : List Char) : EndsWord (e ++ tail) := by
  obtain ⟨c, r, rfl, kind⟩ := spells.head
  refine ⟨fun d head => ?_, fun d rest same => ?_⟩
  · obtain rfl := Option.some.inj head
    exact not_isSymbolChar_of_isExponentChar kind
  · obtain ⟨rfl, _⟩ := List.cons.inj same
    exact absurd kind (by decide +kernel)

/-! ### Texts that stand apart -/

/-- Nothing in front goes on with the text, neither a symbol nor an exponent. -/
structure StandsApart (tail : List Char) : Prop where
  word : EndsWord tail
  exponent : EndsExponent tail

theorem standsApart_of_endsTerm (ends : EndsTerm tail) : StandsApart tail where
  word := ends.endsSymbol.endsWord
  exponent c head := (kinds_of_operator (ends c head)).2.2.1

/-- White space may stand in front. -/
theorem standsApart_blanks {blanks : List Char} (blank : ∀ c ∈ blanks, Text.isBlank c = true)
    (ends : EndsTerm tail) : StandsApart (blanks ++ tail) := by
  cases blanks with
  | nil => exact standsApart_of_endsTerm ends
  | cons c blanks =>
    have first := blank c List.mem_cons_self
    refine ⟨⟨fun d head => ?_, fun d rest same => ?_⟩, fun d head => ?_⟩
    · exact Option.some.inj head ▸ not_isSymbolChar_of_isBlank first
    · -- behind a space there is more white space, or the tail
      apply not_isAsciiLetter_of_not_isSymbolChar
      have behind : (blanks ++ tail).head? = some d := congrArg List.head? (List.cons.inj same).2
      cases blanks with
      | nil => exact (ends.endsSymbol d behind).1
      | cons b blanks =>
        obtain rfl := Option.some.inj behind
        exact not_isSymbolChar_of_isBlank (blank b (by simp))
    · exact Option.some.inj head ▸ not_isExponentChar_of_isBlank first

/-- Texts that stand apart lex alike if they do so by themselves. -/
theorem StandsApart.tailsAlike (apart : StandsApart tail) (apart' : StandsApart tail')
    (alone : ∀ lexemes, Lexes false tail lexemes →
      ∃ lexemes', Lexes false tail' lexemes' ∧ List.Forall₂ Alike lexemes lexemes')
    (front : List Char) : TailsAlike (front ++ tail) (front ++ tail') := by
  refine lexes_append (fun behindSymbol lexemes lexes => ?_) apart.word apart'.word
    (.inl apart.exponent) (.inl apart'.exponent)
  have none : readExponent tail = .ok none := apart.exponent.readExponent_append []
  have none' : readExponent tail' = .ok Option.none := apart'.exponent.readExponent_append []
  cases behindSymbol with
  | false => exact alone lexemes lexes
  | true =>
    cases lexes with
    | bare _ more =>
      obtain ⟨others, lexes, alike⟩ := alone lexemes more
      exact ⟨others, .bare none' lexes, alike⟩
    | exponent written more =>
      rw [none] at written
      cases written

theorem lexes_blanks {blanks : List Char} (blank : ∀ c ∈ blanks, Text.isBlank c = true)
    {lexemes : List Lexeme} (lexes : Lexes false tail lexemes) :
    Lexes false (blanks ++ tail) lexemes := by
  induction blanks with
  | nil => exact lexes
  | cons c blanks ih =>
    obtain ⟨first, others⟩ := List.forall_mem_cons.mp blank
    exact .blank first (ih others)

/-- What an operator is followed by. -/
theorem lexes_operator_cons {c : Char} (sign : c ∈ operators) {lexemes : List Lexeme}
    (lexes : Lexes false (c :: tail) lexemes) :
    ∃ lexeme more, operator? c = some lexeme ∧ lexemes = lexeme :: more ∧ Lexes false tail more := by
  obtain ⟨visible, notSymbol, _, _⟩ := kinds_of_operator sign
  cases lexes with
  | blank blank more =>
    rw [visible] at blank
    cases blank
  | operator _ isSign more => exact ⟨_, _, isSign, rfl, more⟩
  | symbol _ _ char more =>
    rw [notSymbol] at char
    cases char

/-! ### Respelling a text -/

/-- One respelling of a text: white space is put in at an end or next to an operator, a multiplication
sign is exchanged for another, or an exponent behind a symbol is spelled in another way. -/
inductive Respells : List Char → List Char → Prop
  | space (front behind : List Char) {blanks : List Char}
      (blank : ∀ c ∈ blanks, Text.isBlank c = true)
      (place : front = [] ∨ behind = [] ∨ (∃ c, front.getLast? = some c ∧ c ∈ operators) ∨
        ∃ c, behind.head? = some c ∧ c ∈ operators) :
      Respells (front ++ behind) (front ++ (blanks ++ behind))
  | times (front behind : List Char) {sign sign' : Char} (isSign : sign ∈ timesSigns)
      (isSign' : sign' ∈ timesSigns) : Respells (front ++ sign :: behind) (front ++ sign' :: behind)
  | exponent (front behind : List Char) {c : Char} {negative : Bool} {n : Nat} {e e' : List Char}
      (char : isSymbolChar c = true) (spells : Spells negative n e)
      (spells' : Spells negative n e') :
      Respells (front ++ c :: (e ++ behind)) (front ++ c :: (e' ++ behind))

/-- White space in front of the end or of an operator. -/
theorem lexes_space_before {front behind blanks : List Char} {lexemes : List Lexeme}
    (blank : ∀ c ∈ blanks, Text.isBlank c = true) (ends : EndsTerm behind)
    (lexes : Lexes false (front ++ behind) lexemes) :
    ∃ lexemes', Lexes false (front ++ (blanks ++ behind)) lexemes' ∧
      List.Forall₂ Alike lexemes lexemes' :=
  (standsApart_of_endsTerm ends).tailsAlike (standsApart_blanks blank ends)
    (fun _ lexes => ⟨_, lexes_blanks blank lexes, forall₂_alike_refl _⟩) front false lexemes lexes

/-- White space behind an operator. -/
theorem lexes_space_behind {front behind blanks : List Char} {c : Char} {lexemes : List Lexeme}
    (blank : ∀ c ∈ blanks, Text.isBlank c = true) (sign : c ∈ operators)
    (lexes : Lexes false (front ++ c :: behind) lexemes) :
    ∃ lexemes', Lexes false (front ++ c :: (blanks ++ behind)) lexemes' ∧
      List.Forall₂ Alike lexemes lexemes' := by
  refine (standsApart_of_endsTerm (endsTerm_cons sign)).tailsAlike
    (standsApart_of_endsTerm (endsTerm_cons sign)) (fun lexemes lexes => ?_) front false lexemes lexes
  obtain ⟨lexeme, more, isSign, rfl, rest⟩ := lexes_operator_cons sign lexes
  have visible := (kinds_of_operator sign).1
  exact ⟨_, .operator visible isSign (lexes_blanks blank rest), forall₂_alike_refl _⟩

/-- One multiplication sign for another. -/
theorem lexes_times {front behind : List Char} {sign sign' : Char} {lexemes : List Lexeme}
    (isSign : sign ∈ timesSigns) (isSign' : sign' ∈ timesSigns)
    (lexes : Lexes false (front ++ sign :: behind) lexemes) :
    ∃ lexemes', Lexes false (front ++ sign' :: behind) lexemes' ∧
      List.Forall₂ Alike lexemes lexemes' := by
  have isOperator {c : Char} (isSign : c ∈ timesSigns) : c ∈ operators :=
    List.mem_append_left ['/', '(', ')'] isSign
  have times {c : Char} (isSign : c ∈ timesSigns) : operator? c = some (.times c) :=
    if_pos (List.contains_iff_mem.mpr isSign)
  refine (standsApart_of_endsTerm (endsTerm_cons (isOperator isSign))).tailsAlike
    (standsApart_of_endsTerm (endsTerm_cons (isOperator isSign'))) (fun lexemes lexes => ?_)
    front false lexemes lexes
  obtain ⟨lexeme, more, given, rfl, rest⟩ := lexes_operator_cons (isOperator isSign) lexes
  obtain rfl := Option.some.inj ((times isSign).symm.trans given)
  have visible := (kinds_of_operator (isOperator isSign')).1
  exact ⟨_, .operator visible (times isSign') rest, .cons (.times sign sign') (forall₂_alike_refl more)⟩

/-- One spelling of an exponent for another. -/
theorem lexes_exponent {front behind : List Char} {c : Char} {lexemes : List Lexeme}
    (char : isSymbolChar c = true) (spells : Spells negative n e) (spells' : Spells negative n e')
    (lexes : Lexes false (front ++ c :: (e ++ behind)) lexemes) :
    ∃ lexemes', Lexes false (front ++ c :: (e' ++ behind)) lexemes' ∧
      List.Forall₂ Alike lexemes lexemes' := by
  have shuts (tail : List Char) : Shuts (front ++ [c]) tail := by
    refine .inr fun d last => ?_
    rw [List.getLast?_append] at last
    exact Option.some.inj last ▸ char
  have alike := lexes_append (spells.tailsAlike spells') (spells.endsWord behind)
    (spells'.endsWord behind) (shuts _) (shuts _)
  simp only [List.append_assoc, List.singleton_append] at alike
  exact alike false lexemes lexes

/-- A text that is respelled lexes alike. -/
theorem Respells.lexes {cs cs' : List Char} {lexemes : List Lexeme} (respells : Respells cs cs')
    (lexes : Lexes false cs lexemes) :
    ∃ lexemes', Lexes false cs' lexemes' ∧ List.Forall₂ Alike lexemes lexemes' := by
  cases respells with
  | space front behind blank place =>
    rcases place with rfl | rfl | ⟨c, last, sign⟩ | ⟨c, head, sign⟩
    · exact ⟨lexemes, lexes_blanks blank lexes, forall₂_alike_refl lexemes⟩
    · exact lexes_space_before blank endsTerm_nil lexes
    · obtain ⟨before, rfl⟩ := List.getLast?_eq_some_iff.mp last
      simp only [List.append_assoc, List.singleton_append] at lexes ⊢
      exact lexes_space_behind blank sign lexes
    · refine lexes_space_before blank (fun d isHead => ?_) lexes
      exact Option.some.inj (head.symm.trans isHead) ▸ sign
  | times front behind isSign isSign' => exact lexes_times isSign isSign' lexes
  | exponent front behind char spells spells' => exact lexes_exponent char spells spells' lexes

end Scanner

namespace Parser

open Scanner

/-! ### Reading lexemes that are alike -/

theorem next_alike {state next : State} {lexeme lexeme' : Lexeme} (alike : Alike lexeme lexeme')
    (step : state.next lexeme = .ok next) : state.next lexeme' = .ok next := by
  cases alike with
  | refl => exact step
  | times sign sign' => cases state <;> first | exact step | cases step
  | exponent negative value => cases state <;> first | exact step | cases step

theorem leadingExponent_alike {tokens tokens' : List Token}
    (alike : List.Forall₂ Alike (tokens.map (·.lexeme)) (tokens'.map (·.lexeme))) :
    leadingExponent tokens = leadingExponent tokens' := by
  match tokens, tokens' with
  | [], [] => rfl
  | [], _ :: _ => cases alike
  | _ :: _, [] => cases alike
  | ⟨lexeme, _⟩ :: _, ⟨lexeme', _⟩ :: _ =>
    obtain ⟨head, _⟩ := List.forall₂_cons.mp alike
    cases head with
    | refl => cases lexeme <;> rfl
    | times sign sign' => rfl
    | exponent negative value => simp only [leadingExponent, exponentValue, value]

/-- Tokens with lexemes that are alike are read alike. -/
theorem read_alike {state : State} {tokens tokens' : List Token} {terms : List ParsedTerm}
    (alike : List.Forall₂ Alike (tokens.map (·.lexeme)) (tokens'.map (·.lexeme)))
    (accepted : read state tokens = .ok terms) :
    ∃ terms', read state tokens' = .ok terms' ∧ terms'.map (·.content) = terms.map (·.content) := by
  induction tokens generalizing state tokens' terms with
  | nil =>
    cases tokens' with
    | nil => exact ⟨terms, accepted, rfl⟩
    | cons t rest => cases alike
  | cons t rest ih =>
    obtain ⟨lexeme, position⟩ := t
    cases tokens' with
    | nil => cases alike
    | cons t' rest' =>
      obtain ⟨lexeme', position'⟩ := t'
      obtain ⟨head, tail⟩ := List.forall₂_cons.mp alike
      by_cases inner : lexeme = .finish
      · subst inner
        cases head
        rw [read] at accepted ⊢
        split at accepted
        next ends =>
          obtain rfl := Except.ok.inj accepted
          exact ⟨[], by rw [if_pos ends], rfl⟩
        next =>
          obtain ⟨fault, wrong⟩ := next_finish state
          rw [wrong] at accepted
          cases accepted
      · have inner' : lexeme' ≠ .finish := by
          rintro rfl
          cases head
          exact inner rfl
        cases step : state.next lexeme with
        | error fault =>
          rw [read_fault inner step] at accepted
          cases accepted
        | ok next =>
          rw [read_step inner step] at accepted
          obtain ⟨more, given, rfl⟩ := map_eq_ok.mp accepted
          obtain ⟨more', given', same⟩ := ih tail given
          refine ⟨state.added lexeme' position' rest' ++ more', ?_, ?_⟩
          · rw [read_step inner' (next_alike head step), given']
            rfl
          · have added : (state.added lexeme' position' rest').map (·.content) =
                (state.added lexeme position rest).map (·.content) := by
              cases head with
              | refl =>
                cases lexeme <;>
                  simp only [State.added, ParsedTerm.content, List.map_cons, List.map_nil,
                    leadingExponent_alike tail]
              | times => rfl
              | exponent => rfl
            rw [List.map_append, List.map_append, added, same]

end Parser

open Scanner

/-- The text is read as terms with these symbols and exponents. -/
def ReadsAs (cs : List Char) (parts : List (String × Int)) : Prop :=
  ∃ tokens terms, scan cs.length 0 cs = .ok tokens ∧ parseTokens tokens = .ok terms ∧
    terms.map (·.content) = parts

/-- A text that is respelled once is read as the same. -/
theorem ReadsAs.respells {cs cs' : List Char} {parts : List (String × Int)}
    (reads : ReadsAs cs parts) (respells : Respells cs cs') : ReadsAs cs' parts := by
  obtain ⟨tokens, terms, scanned, read, content⟩ := reads
  obtain ⟨lexemes, lexes, alike⟩ := respells.lexes (lexes_of_scan le_rfl scanned)
  obtain ⟨tokens', scanned', rfl⟩ := scanFrom_of_lexes lexes 0 le_rfl
  obtain ⟨terms', read', same⟩ := Parser.read_alike alike read
  exact ⟨tokens', terms', scanned', read', same.trans content⟩

theorem parseExpression_eq_ok {source : String} {terms : List ParsedTerm} :
    parseExpression source = .ok terms ↔ ∃ tokens,
      scan source.toList.length 0 source.toList = .ok tokens ∧ parseTokens tokens = .ok terms := by
  have mapped {ε α : Type} {x : Except ε α} {f : ε → Error} {a : α} :
      x.mapError f = .ok a ↔ x = .ok a := by
    cases x <;> simp [Except.mapError]
  rw [parseExpression, bind_eq_ok]
  exact exists_congr fun tokens => and_congr mapped mapped

/-- The second text is a respelling of the first: it comes from respelling it in one way after the
other. -/
def Respelled (source source' : String) : Prop :=
  Relation.ReflTransGen Respells source.toList source'.toList

/-- A respelling of an expression that is read is read too, as the same symbols with the same
exponents. -/
theorem parseExpression_respelled {source source' : String} {terms : List ParsedTerm}
    (respelled : Respelled source source') (accepted : parseExpression source = .ok terms) :
    ∃ terms', parseExpression source' = .ok terms' ∧
      terms'.map (·.content) = terms.map (·.content) := by
  obtain ⟨tokens, scanned, read⟩ := parseExpression_eq_ok.mp accepted
  have reads : ReadsAs source'.toList (terms.map (·.content)) := by
    unfold Respelled at respelled
    generalize source'.toList = cs at respelled ⊢
    induction respelled with
    | refl => exact ⟨tokens, terms, scanned, read, rfl⟩
    | tail _ respells ih => exact ih.respells respells
  obtain ⟨tokens', terms', scanned', read', same⟩ := reads
  exact ⟨terms', parseExpression_eq_ok.mpr ⟨tokens', scanned', read'⟩, same⟩

/-- The exponent of a symbol with two words is raised, and the sign behind it is exchanged and set off
with a space. -/
theorem gallons_respelled :
    Respelled "US gal2*m" "US gal²· m" ∧
    parseExpression "US gal2*m" = .ok [⟨"US gal", 2, 0⟩, ⟨"m", 1, 8⟩] ∧
    ∃ terms, parseExpression "US gal²· m" = .ok terms ∧
      terms.map (·.content) = [("US gal", 2), ("m", 1)] := by
  have plain : Spells false 2 ['2'] := .plain (by decide)
  have raised : Spells false 2 ['²'] := .raised (by decide) (by decide)
  have lifted : Respells "US gal2*m".toList "US gal²*m".toList :=
    .exponent "US ga".toList "*m".toList (by decide : isSymbolChar 'l' = true) plain raised
  have exchanged : Respells "US gal²*m".toList "US gal²·m".toList :=
    .times "US gal²".toList "m".toList (by decide) (by decide)
  have spaced : Respells "US gal²·m".toList "US gal²· m".toList :=
    .space "US gal²·".toList "m".toList
      (fun c mem => List.mem_singleton.mp mem ▸ (by decide : Text.isBlank ' ' = true))
      (.inr (.inr (.inl ⟨'·', rfl, by decide⟩)))
  have respelled : Respelled "US gal2*m" "US gal²· m" :=
    ((Relation.ReflTransGen.single lifted).tail exchanged).tail spaced
  have accepted : parseExpression "US gal2*m" = .ok [⟨"US gal", 2, 0⟩, ⟨"m", 1, 8⟩] := by decide +kernel
  exact ⟨respelled, accepted, parseExpression_respelled respelled accepted⟩

end Metrology
