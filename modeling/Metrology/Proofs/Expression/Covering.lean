import Metrology.Proofs.Expression.Respelling

/-!
# Tokens cover their source

A text that is scanned falls apart into the texts of its tokens, with white space between them. So
no character is skipped or read twice: every token stands where its position says, the end stands
behind the last character, and an exponent stands directly behind a symbol. A text that is refused
is refused at one of its characters.
-/
namespace Metrology

/-- The text is a way to write the lexeme. An exponent is written as its sign and its decimal digit,
in superscripts or not, with an optional caret; any other lexeme as its own text. -/
def Lexeme.WrittenAs : Lexeme → List Char → Prop
  | exponent negative digit, text => Text.isDecimal digit = true ∧
      (Scanner.stripSign '^' text).2.map Text.lower = (exponent negative digit).text.toList
  | lexeme, text => text = lexeme.text.toList

/-- A token with its text and the white space in front of it. -/
structure Piece where
  blanks : List Char
  text : List Char
  token : Token

def Piece.chars (p : Piece) : List Char := p.blanks ++ p.text

/-- The pieces make up the source, each where its token says, and the last is its end. -/
structure Covering (source : List Char) (pieces : List Piece) : Prop where
  whole : pieces.flatMap Piece.chars = source
  blank : ∀ p ∈ pieces, ∀ c ∈ p.blanks, Text.isBlank c = true
  written : ∀ p ∈ pieces, p.token.lexeme.WrittenAs p.text
  position : ∀ before p after, pieces = before ++ p :: after →
    p.token.position = (before.flatMap Piece.chars ++ p.blanks).length
  increasing : pieces.Pairwise fun p q => p.token.position < q.token.position
  finish : ∃ inner last, pieces = inner ++ [last] ∧ last.token = ⟨.finish, source.length⟩ ∧
    ∀ p ∈ inner, p.token.kind ≠ .finish
  exponent : ∀ before p after, pieces = before ++ p :: after → p.token.kind = .exponent →
    p.blanks = [] ∧ ∃ front q, before = front ++ [q] ∧ q.token.kind = .symbol

namespace Scanner

variable {behindSymbol : Bool} {offset fuel position width : Nat} {c : Char} {cs text : List Char}
  {lexeme : Lexeme} {negative : Bool} {digit : Char} {pieces before after : List Piece} {p : Piece}
  {tokens : List Token} {e : SyntaxError}

/-- The pieces are laid one behind the other from an offset on. Only behind a symbol, the first of
them may be an exponent. -/
inductive Laid : (behindSymbol : Bool) → (offset : Nat) → List Piece → Prop
  | finish {behindSymbol : Bool} {offset position : Nat} {blanks : List Char}
      (blank : ∀ c ∈ blanks, Text.isBlank c = true) (stands : position = offset + blanks.length) :
      Laid behindSymbol offset [⟨blanks, [], ⟨.finish, position⟩⟩]
  | exponent {offset : Nat} {negative : Bool} {digit : Char} {text : List Char} {pieces : List Piece}
      (written : (Lexeme.exponent negative digit).WrittenAs text) (given : text ≠ [])
      (more : Laid false (offset + text.length) pieces) :
      Laid true offset (⟨[], text, ⟨.exponent negative digit, offset⟩⟩ :: pieces)
  | token {behindSymbol : Bool} {offset position : Nat} {blanks text : List Char} {lexeme : Lexeme}
      {pieces : List Piece} (blank : ∀ c ∈ blanks, Text.isBlank c = true)
      (stands : position = offset + blanks.length)
      (inner : lexeme.kind ≠ .finish ∧ lexeme.kind ≠ .exponent) (written : lexeme.WrittenAs text)
      (given : text ≠ []) (more : Laid (lexeme.kind = .symbol) (position + text.length) pieces) :
      Laid behindSymbol offset (⟨blanks, text, ⟨lexeme, position⟩⟩ :: pieces)

/-! ### Pieces that are laid -/

/-- What is laid elsewhere may also be laid behind a symbol. -/
theorem Laid.behind (laid : Laid false offset pieces) : Laid behindSymbol offset pieces := by
  cases laid with
  | finish blank stands => exact .finish blank stands
  | token blank stands inner written given more => exact .token blank stands inner written given more

/-- The part of the pieces from some piece on is laid behind the others. -/
theorem Laid.drop (laid : Laid behindSymbol offset pieces) (split : pieces = before ++ p :: after) :
    ∃ behindSymbol', Laid behindSymbol' (offset + (before.flatMap Piece.chars).length) (p :: after) ∧
      (behindSymbol' = true → before = [] ∧ behindSymbol = true ∨
        ∃ front q, before = front ++ [q] ∧ q.token.kind = .symbol) := by
  induction before generalizing behindSymbol offset pieces with
  | nil =>
    obtain rfl : pieces = p :: after := split
    exact ⟨behindSymbol, laid, fun behind => .inl ⟨rfl, behind⟩⟩
  | cons first before ih =>
    have further {b : Bool} {start : Nat} (more : Laid b start (before ++ p :: after))
        (next : start = offset + first.chars.length)
        (kind : b = true → first.token.kind = .symbol) :
        ∃ b', Laid b' (offset + ((first :: before).flatMap Piece.chars).length) (p :: after) ∧
          (b' = true → first :: before = [] ∧ behindSymbol = true ∨
            ∃ front q, first :: before = front ++ [q] ∧ q.token.kind = .symbol) := by
      obtain ⟨b', laid, behind⟩ := ih more rfl
      refine ⟨b', ?_, fun isBehind => .inr ?_⟩
      · rwa [List.flatMap_cons, List.length_append, ← Nat.add_assoc, ← next]
      · obtain ⟨rfl, same⟩ | ⟨front, q, rfl, symbol⟩ := behind isBehind
        · exact ⟨[], first, rfl, kind same⟩
        · exact ⟨first :: front, q, rfl, symbol⟩
    cases laid with
    | finish => simp at split
    | exponent written given more =>
      obtain ⟨rfl, rfl⟩ := List.cons.inj split
      exact further more rfl fun behind => nomatch behind
    | token blank stands inner written given more =>
      obtain ⟨rfl, rfl⟩ := List.cons.inj split
      refine further more ?_ of_decide_eq_true
      rw [stands, Piece.chars, List.length_append, Nat.add_assoc]

/-- What a piece says about itself that is laid at an offset. -/
structure Placed (behindSymbol : Bool) (offset : Nat) (p : Piece) : Prop where
  blank : ∀ c ∈ p.blanks, Text.isBlank c = true
  written : p.token.lexeme.WrittenAs p.text
  stands : p.token.position = offset + p.blanks.length
  exponent : p.token.kind = .exponent → p.blanks = [] ∧ behindSymbol = true

theorem Laid.head (laid : Laid behindSymbol offset (p :: after)) :
    Placed behindSymbol offset p := by
  cases laid with
  | finish blank stands => exact ⟨blank, rfl, stands, fun kind => nomatch kind⟩
  | exponent written given more =>
    exact ⟨fun c mem => absurd mem List.not_mem_nil, written, rfl, fun _ => ⟨rfl, rfl⟩⟩
  | token blank stands inner written given more =>
    exact ⟨blank, written, stands, fun kind => absurd kind inner.2⟩

theorem Laid.offset_le (laid : Laid behindSymbol offset pieces) (mem : p ∈ pieces) :
    offset ≤ p.token.position := by
  obtain ⟨before, after, split⟩ := List.append_of_mem mem
  obtain ⟨_, own, _⟩ := laid.drop split
  have stands := own.head.stands
  omega

theorem Laid.increasing (laid : Laid behindSymbol offset pieces) :
    pieces.Pairwise fun p q => p.token.position < q.token.position := by
  induction laid with
  | finish => exact List.pairwise_singleton _ _
  | exponent written given more ih =>
    refine List.pairwise_cons.mpr ⟨fun q mem => ?_, ih⟩
    have later := more.offset_le mem
    have positive := List.length_pos_iff.mpr given
    exact Nat.lt_of_lt_of_le (Nat.lt_add_of_pos_right positive) later
  | token blank stands inner written given more ih =>
    refine List.pairwise_cons.mpr ⟨fun q mem => ?_, ih⟩
    have later := more.offset_le mem
    have positive := List.length_pos_iff.mpr given
    exact Nat.lt_of_lt_of_le (Nat.lt_add_of_pos_right positive) later

/-- Exactly the last piece is the end, and it stands behind all characters. -/
theorem Laid.finishes (laid : Laid behindSymbol offset pieces) :
    ∃ inner last, pieces = inner ++ [last] ∧
      last.token = ⟨.finish, offset + (pieces.flatMap Piece.chars).length⟩ ∧
      ∀ p ∈ inner, p.token.kind ≠ .finish := by
  have further {first : Piece} {pieces : List Piece} {start offset : Nat}
      (rest : ∃ inner last, pieces = inner ++ [last] ∧
        last.token = ⟨.finish, start + (pieces.flatMap Piece.chars).length⟩ ∧
        ∀ p ∈ inner, p.token.kind ≠ .finish)
      (next : start = offset + first.chars.length) (own : first.token.kind ≠ .finish) :
      ∃ inner last, first :: pieces = inner ++ [last] ∧
        last.token = ⟨.finish, offset + ((first :: pieces).flatMap Piece.chars).length⟩ ∧
        ∀ p ∈ inner, p.token.kind ≠ .finish := by
    obtain ⟨inner, last, rfl, ends, others⟩ := rest
    refine ⟨first :: inner, last, rfl, ?_, List.forall_mem_cons.mpr ⟨own, others⟩⟩
    rw [ends, next, List.flatMap_cons, List.length_append, Nat.add_assoc]
  induction laid with
  | finish blank stands =>
    refine ⟨[], _, rfl, ?_, fun p mem => absurd mem List.not_mem_nil⟩
    simp [Piece.chars, stands]
  | exponent written given more ih => exact further ih rfl fun kind => nomatch kind
  | token blank stands inner written given more ih =>
    refine further ih ?_ inner.1
    rw [stands, Piece.chars, List.length_append, Nat.add_assoc]

/-- Pieces that are laid from the start cover the text that they make up. -/
theorem Laid.covering (laid : Laid false 0 pieces) :
    Covering (pieces.flatMap Piece.chars) pieces := by
  have own {p : Piece} (mem : p ∈ pieces) :
      (∀ c ∈ p.blanks, Text.isBlank c = true) ∧ p.token.lexeme.WrittenAs p.text := by
    obtain ⟨before, after, split⟩ := List.append_of_mem mem
    obtain ⟨_, laid, _⟩ := laid.drop split
    exact ⟨laid.head.blank, laid.head.written⟩
  refine ⟨rfl, fun p mem => (own mem).1, fun p mem => (own mem).2, fun before p after split => ?_,
    laid.increasing, ?_, fun before p after split kind => ?_⟩
  · obtain ⟨_, laid, _⟩ := laid.drop split
    rw [laid.head.stands, List.length_append, Nat.zero_add]
  · simpa using laid.finishes
  · obtain ⟨_, laid, behind⟩ := laid.drop split
    obtain ⟨close, isBehind⟩ := laid.head.exponent kind
    obtain ⟨_, off⟩ | symbol := behind isBehind
    · cases off
    · exact ⟨close, symbol⟩

/-! ### Exponents as they are written -/

theorem lower_of_isDecimal (decimal : Text.isDecimal c = true) : Text.lower c = c := by
  unfold Text.lower
  cases found : Text.superscripts.find? fun p => p.2 = c with
  | none => rfl
  | some p =>
    have same : p.2 = c := by simpa using List.find?_some found
    have apart : Text.superscripts.all (fun p => !Text.isDecimal p.2) = true := by decide +kernel
    have own := List.all_eq_true.mp apart p (List.mem_of_find?_eq_some found)
    rw [same, decimal] at own
    cases own

theorem isDecimal_lower (script : Text.isSuperscriptDigit c = true) :
    Text.isDecimal (Text.lower c) = true := by
  obtain ⟨among, sign⟩ := Bool.and_eq_true_iff.mp script
  obtain ⟨p, mem, same⟩ := List.any_eq_true.mp among
  have digits : Text.superscripts.all (fun p => p.2 = '⁻' || Text.isDecimal (Text.lower p.2)) = true := by
    decide +kernel
  have own := List.all_eq_true.mp digits p mem
  rw [of_decide_eq_true same] at own
  have other : c ≠ '⁻' := of_decide_eq_true sign
  simpa [other] using own

/-- A sign is taken off where it stands. -/
theorem stripSign_parts (sign : Char) (cs : List Char) : ∃ given : Bool,
    cs = (if given then [sign] else []) ++ (stripSign sign cs).2 ∧
      (stripSign sign cs).1 = if given then 1 else 0 := by
  cases cs with
  | nil => exact ⟨false, rfl, rfl⟩
  | cons c cs =>
    by_cases same : c = sign
    · exact ⟨true, by simp [stripSign, same], by simp [stripSign, same]⟩
    · exact ⟨false, by simp [stripSign, same], by simp [stripSign, same]⟩

theorem takeWhile_eq_singleton {p : Char → Bool} {d : Char} (digits : cs.takeWhile p = [d]) :
    p d = true ∧ ∃ rest, cs = d :: rest := by
  cases cs with
  | nil => cases digits
  | cons c cs =>
    rw [List.takeWhile_cons] at digits
    split at digits
    next own =>
      obtain rfl := (List.cons.inj digits).1
      exact ⟨own, cs, rfl⟩
    next => cases digits

theorem writtenAs_plain (decimal : Text.isDecimal digit = true) (caret negative : Bool) :
    (Lexeme.exponent negative digit).WrittenAs
      ((if caret then ['^'] else []) ++ if negative then ['-', digit] else [digit]) := by
  have low := lower_of_isDecimal decimal
  have lowMinus : Text.lower '-' = '-' := rfl
  have notCaret : digit ≠ '^' := by
    rintro rfl
    exact absurd decimal (by decide +kernel)
  refine ⟨decimal, ?_⟩
  cases caret <;> cases negative <;> simp [stripSign, Lexeme.text, low, lowMinus, notCaret]

theorem writtenAs_raised (script : Text.isSuperscriptDigit digit = true) (negative : Bool) :
    (Lexeme.exponent negative (Text.lower digit)).WrittenAs
      (if negative then ['⁻', digit] else [digit]) := by
  have lowMinus : Text.lower '⁻' = '-' := rfl
  have notCaret : digit ≠ '^' := by
    rintro rfl
    exact absurd script (by decide)
  refine ⟨isDecimal_lower script, ?_⟩
  cases negative <;> simp [stripSign, Lexeme.text, lowMinus, notCaret]

/-- An exponent that is read stands at the head of the text. -/
theorem writtenAs_of_readExponent (read : readExponent cs = .ok (some (negative, digit, width))) :
    ∃ text rest, cs = text ++ rest ∧ text.length = width ∧ text ≠ [] ∧
      (Lexeme.exponent negative digit).WrittenAs text := by
  have written := writtenExponent?_of_readExponent read
  unfold writtenExponent? at written
  split at written
  next plain =>
    rw [Option.some.inj written, plainExponent?_eq] at plain
    dsimp only at plain
    split at plain
    next => cases plain
    next =>
      simp only [Option.some.injEq, WrittenExponent.mk.injEq] at plain
      obtain ⟨rfl, rfl, digits⟩ := plain
      obtain ⟨decimal, rest, behind⟩ := takeWhile_eq_singleton digits
      obtain ⟨caret, parts, isCaret⟩ := stripSign_parts '^' cs
      obtain ⟨minus, parts', isMinus⟩ := stripSign_parts '-' (stripSign '^' cs).2
      have own := writtenAs_plain decimal caret minus
      rw [isCaret, isMinus, digits]
      have kept : decide ((if minus then 1 else 0) = 1) = minus := by cases minus <;> rfl
      rw [kept]
      refine ⟨_, rest, ?_, ?_, ?_, own⟩
      · rw [parts, parts', behind]
        cases caret <;> cases minus <;> rfl
      · cases caret <;> cases minus <;> rfl
      · cases minus <;> simp
  next =>
    rw [raisedExponent?_eq] at written
    dsimp only at written
    split at written
    next => cases written
    next =>
      simp only [Option.some.injEq, WrittenExponent.mk.injEq] at written
      obtain ⟨rfl, rfl, digits⟩ := written
      obtain ⟨script, single, rfl⟩ := List.map_eq_singleton_iff.mp digits
      obtain ⟨raised, rest, behind⟩ := takeWhile_eq_singleton single
      obtain ⟨minus, parts, isMinus⟩ := stripSign_parts '⁻' cs
      have own := writtenAs_raised raised minus
      have kept : decide ((if minus then 1 else 0) = 1) = minus := by cases minus <;> rfl
      rw [isMinus, single, kept]
      refine ⟨_, rest, ?_, ?_, ?_, own⟩
      · rw [parts, behind]
        cases minus <;> rfl
      · cases minus <;> rfl
      · cases minus <;> simp

theorem writtenAs_operator (sign : operator? c = some lexeme) :
    lexeme.WrittenAs [c] ∧ lexeme.kind ≠ .finish ∧ lexeme.kind ≠ .exponent ∧
      lexeme.kind ≠ .symbol := by
  unfold operator? at sign
  split at sign
  next =>
    obtain rfl := Option.some.inj sign
    simp [Lexeme.WrittenAs, Lexeme.text, Lexeme.kind]
  next =>
    split at sign
    next slash =>
      obtain rfl := Option.some.inj sign
      simp [Lexeme.WrittenAs, Lexeme.text, Lexeme.kind, slash]
    next =>
      split at sign
      next opening =>
        obtain rfl := Option.some.inj sign
        simp [Lexeme.WrittenAs, Lexeme.text, Lexeme.kind, opening]
      next =>
        split at sign
        next closing =>
          obtain rfl := Option.some.inj sign
          simp [Lexeme.WrittenAs, Lexeme.text, Lexeme.kind, closing]
        next => cases sign

/-! ### Pieces of a scanned text -/

/-- The text falls apart into pieces with these tokens. -/
def LaidOut (behindSymbol : Bool) (offset : Nat) (cs : List Char) (tokens : List Token) : Prop :=
  ∃ pieces, Laid behindSymbol offset pieces ∧ pieces.flatMap Piece.chars = cs ∧
    pieces.map (·.token) = tokens

theorem laidOut_blank (blank : Text.isBlank c = true) (out : LaidOut false (offset + 1) cs tokens) :
    LaidOut false offset (c :: cs) tokens := by
  obtain ⟨pieces, laid, rfl, rfl⟩ := out
  have all {blanks : List Char} (others : ∀ c ∈ blanks, Text.isBlank c = true) :
      ∀ d ∈ c :: blanks, Text.isBlank d = true :=
    List.forall_mem_cons.mpr ⟨blank, others⟩
  have further {position : Nat} {blanks : List Char} (stands : position = offset + 1 + blanks.length) :
      position = offset + (c :: blanks).length := by
    rw [List.length_cons]
    omega
  cases laid with
  | finish blank stands => exact ⟨_, .finish (all blank) (further stands), rfl, rfl⟩
  | token blank stands inner written given more =>
    exact ⟨_, .token (all blank) (further stands) inner written given more, rfl, rfl⟩

theorem laidOut_token (inner : lexeme.kind ≠ .finish ∧ lexeme.kind ≠ .exponent)
    (written : lexeme.WrittenAs text) (given : text ≠ [])
    (out : LaidOut (lexeme.kind = .symbol) (offset + text.length) cs tokens) :
    LaidOut false offset (text ++ cs) (⟨lexeme, offset⟩ :: tokens) := by
  obtain ⟨pieces, laid, rfl, rfl⟩ := out
  exact ⟨⟨[], text, ⟨lexeme, offset⟩⟩ :: pieces,
    .token (fun c mem => absurd mem List.not_mem_nil) rfl inner written given laid, rfl, rfl⟩

theorem laidOut_symbol (given : text ≠ []) (out : LaidOut true (offset + text.length) cs tokens) :
    LaidOut false offset (text ++ cs) (⟨.symbol (String.ofList text), offset⟩ :: tokens) :=
  laidOut_token ⟨nofun, nofun⟩ String.toList_ofList.symm given out

/-- What the scanner accepts right behind a symbol is laid out if what it accepts elsewhere is. -/
theorem laidOut_of_scanFrom
    (elsewhere : ∀ {position cs tokens}, cs.length ≤ fuel → scan fuel position cs = .ok tokens →
      LaidOut false position cs tokens)
    (room : cs.length ≤ fuel) (scanned : scanFrom true fuel position cs = .ok tokens) :
    LaidOut true position cs tokens := by
  rw [scanFrom, if_pos rfl] at scanned
  split at scanned
  next => cases scanned
  next =>
    obtain ⟨pieces, laid, whole, same⟩ := elsewhere room scanned
    exact ⟨pieces, laid.behind, whole, same⟩
  next negative digit width read =>
    obtain ⟨more, made, rfl⟩ := map_eq_ok.mp scanned
    obtain ⟨text, rest, rfl, rfl, given, written⟩ := writtenAs_of_readExponent read
    rw [List.drop_left] at made
    have shorter : rest.length ≤ fuel := by
      rw [List.length_append] at room
      omega
    obtain ⟨pieces, laid, rfl, rfl⟩ := elsewhere shorter made
    exact ⟨_, .exponent written given laid, rfl, rfl⟩

/-- What the scanner accepts is laid out. -/
theorem laidOut_of_scan (room : cs.length ≤ fuel) (scanned : scan fuel position cs = .ok tokens) :
    LaidOut false position cs tokens := by
  have ended (position : Nat) : LaidOut false position [] [⟨.finish, position⟩] :=
    ⟨_, .finish (fun c mem => absurd mem List.not_mem_nil) rfl, rfl, rfl⟩
  induction fuel generalizing position cs tokens with
  | zero =>
    obtain rfl := List.length_eq_zero_iff.mp (Nat.le_zero.mp room)
    rw [scan] at scanned
    exact Except.ok.inj scanned ▸ ended position
  | succ fuel ih =>
    cases cs with
    | nil =>
      rw [scan] at scanned
      exact Except.ok.inj scanned ▸ ended position
    | cons c cs =>
      have room' : cs.length ≤ fuel := by simpa using room
      cases visible : Text.isBlank c with
      | true =>
        rw [scan, if_pos visible] at scanned
        exact laidOut_blank visible (ih room' scanned)
      | false =>
        cases sign : operator? c with
        | some lexeme =>
          simp only [scan, visible, sign, Bool.false_eq_true, if_false] at scanned
          obtain ⟨more, made, rfl⟩ := map_eq_ok.mp scanned
          obtain ⟨written, finish, exponent, symbol⟩ := writtenAs_operator sign
          refine laidOut_token ⟨finish, exponent⟩ written (List.cons_ne_nil c []) ?_
          rw [decide_eq_false symbol]
          exact ih room' made
        | none =>
          cases char : isSymbolChar c with
          | false => simp [scan, visible, sign, char] at scanned
          | true =>
            rw [scan_symbolChar visible sign char] at scanned
            obtain ⟨more, made, rfl⟩ := map_eq_ok.mp scanned
            have less := length_takeSymbol_lt char cs
            have parts := takeSymbol_parts (c :: cs)
            have given : (takeSymbol (c :: cs)).1 ≠ [] := by
              intro none
              rw [none, List.nil_append] at parts
              exact absurd (congrArg List.length parts) (Nat.ne_of_lt less)
            have out := laidOut_of_scanFrom ih (Nat.le_of_lt_succ (Nat.lt_of_lt_of_le less room)) made
            have whole := laidOut_symbol given out
            rwa [parts] at whole

/-! ### Texts that are refused -/

/-- No exponent is refused at the end of a text. -/
theorem ne_nil_of_readExponent {fault : SyntaxFault} (read : readExponent cs = .error fault) :
    cs ≠ [] := by
  rintro rfl
  cases read

/-- What the scanner refuses it refuses at a character of the text. -/
theorem position_lt_of_scan (refused : scan fuel position cs = .error e) :
    e.position < position + cs.length := by
  induction fuel generalizing position cs with
  | zero => cases cs <;> cases refused
  | succ fuel ih =>
    cases cs with
    | nil => cases refused
    | cons c cs =>
      rw [List.length_cons]
      cases visible : Text.isBlank c with
      | true =>
        rw [scan, if_pos visible] at refused
        have before := ih refused
        omega
      | false =>
        cases sign : operator? c with
        | some lexeme =>
          simp only [scan, visible, sign, Bool.false_eq_true, if_false] at refused
          have before := ih (map_eq_error.mp refused)
          omega
        | none =>
          cases char : isSymbolChar c with
          | false =>
            simp only [scan, visible, sign, char, Bool.false_eq_true, if_false] at refused
            obtain rfl := Except.error.inj refused
            dsimp only
            omega
          | true =>
            rw [scan_symbolChar visible sign char, map_eq_error, scanFrom, if_pos rfl] at refused
            have parts := congrArg List.length (takeSymbol_parts (c :: cs))
            rw [List.length_append, List.length_cons] at parts
            split at refused
            next read =>
              obtain rfl := Except.error.inj refused
              have positive := List.length_pos_iff.mpr (ne_nil_of_readExponent read)
              dsimp only
              omega
            next =>
              have before := ih refused
              omega
            next read =>
              have before := ih (map_eq_error.mp refused)
              have within := width_of_readExponent read
              rw [List.length_drop] at before
              omega

end Scanner

/-- Either a text is refused at one of its characters, or its tokens cover it. -/
theorem tokens_cover_source (source : String) :
    (∃ e, tokenize source = .error (.malformed e source) ∧ e.position < source.length) ∨
      ∃ pieces, tokenize source = .ok (pieces.map (·.token)) ∧ Covering source.toList pieces := by
  have length : source.toList.length = source.length := rfl
  cases scanned : Scanner.scan source.toList.length 0 source.toList with
  | error e =>
    refine .inl ⟨e, by simp [tokenize, scanned, Except.mapError], ?_⟩
    have before := Scanner.position_lt_of_scan scanned
    omega
  | ok tokens =>
    obtain ⟨pieces, laid, whole, rfl⟩ := Scanner.laidOut_of_scan le_rfl scanned
    exact .inr ⟨pieces, by simp [tokenize, scanned, Except.mapError], whole ▸ laid.covering⟩

end Metrology
