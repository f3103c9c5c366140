import Metrology.Expression.Parser
import Mathlib.Tactic.IntervalCases

/-!
# Reading the lexemes of products

A product is read term by term, each term with the sign of the place it stands at: 1 in front of a
slash, −1 behind one and in a group.
-/
namespace Metrology

/-- What a parsed term says, its position left aside. -/
def ParsedTerm.content (t : ParsedTerm) : String × Int := (t.symbol, t.exponent)

/-- The lexemes of a symbol with an exponent, which is left out when it is 1. -/
def termLexemes (part : String × Int) : List Lexeme :=
  .symbol part.1 ::
    if part.2 = 1 then [] else [.exponent (decide (part.2 < 0)) (Nat.digitChar part.2.natAbs)]

/-- The lexemes of a product, given its symbols and their exponents. -/
def productLexemes (sign : Char) (parts : List (String × Int)) : List Lexeme :=
  [Lexeme.times sign].intercalate (parts.map termLexemes)

theorem productLexemes_cons_cons (sign : Char) (p q : String × Int) (parts : List (String × Int)) :
    productLexemes sign (p :: q :: parts)
      = termLexemes p ++ .times sign :: productLexemes sign (q :: parts) := by
  simp [productLexemes, List.intercalate_cons_cons]

/-- One digit and its sign stand for the exponent they were written for. -/
theorem exponentValue_digitChar {n : Int} (range : n.natAbs ≤ 9) :
    exponentValue (decide (n < 0)) (Nat.digitChar n.natAbs) = n := by
  have low : -9 ≤ n := by omega
  have high : n ≤ 9 := by omega
  interval_cases n <;> decide

namespace Parser

/-- From this state the lexemes are read as terms with these symbols and exponents. -/
def Parses (state : State) (lexemes : List Lexeme) (parts : List (String × Int)) : Prop :=
  ∀ tokens : List Token, tokens.map (·.lexeme) = lexemes →
    ∃ parsed, read state tokens = .ok parsed ∧ parsed.map (·.content) = parts

theorem tokens_eq_cons {tokens : List Token} {lexeme : Lexeme} {lexemes : List Lexeme}
    (same : tokens.map (·.lexeme) = lexeme :: lexemes) :
    ∃ position rest, tokens = ⟨lexeme, position⟩ :: rest ∧ rest.map (·.lexeme) = lexemes := by
  obtain ⟨⟨_, position⟩, rest, rfl, rfl, behind⟩ := List.map_eq_cons_iff.mp same
  exact ⟨position, rest, rfl, behind⟩

theorem parses_finish {state : State} (accepts : state.accepts = true) :
    Parses state [.finish] [] := by
  intro tokens same
  obtain ⟨position, rest, rfl, _⟩ := tokens_eq_cons same
  exact ⟨[], by simp [read, accepts], rfl⟩

/-- A lexeme without content of its own only moves the state on. -/
theorem parses_step {state next : State} (lexeme : Lexeme) {lexemes : List Lexeme}
    {parts : List (String × Int)} (step : state.next lexeme = .ok next)
    (plain : ∀ text, lexeme ≠ .symbol text) (inner : lexeme ≠ .finish)
    (more : Parses next lexemes parts) : Parses state (lexeme :: lexemes) parts := by
  intro tokens same
  obtain ⟨position, rest, rfl, behind⟩ := tokens_eq_cons same
  obtain ⟨parsed, isRead, content⟩ := more rest behind
  refine ⟨parsed, ?_, content⟩
  rw [read, if_neg (fun ends => inner ends.1), step]
  cases lexeme with
  | symbol text => exact absurd rfl (plain text)
  | _ => exact isRead

/-- Where a term may stand, and the states behind its symbol and behind its exponent. -/
structure Slot where
  entry : State
  behindSymbol : State
  behindTerm : State
  symbol_next : ∀ text, entry.next (.symbol text) = .ok behindSymbol
  exponent_next : ∀ negative digit, behindSymbol.next (.exponent negative digit) = .ok behindTerm

namespace Slot

def first : Slot := ⟨.start, .symbol false, .term false, fun _ => rfl, fun _ _ => rfl⟩

def further : Slot := ⟨.factor false, .symbol false, .term false, fun _ => rfl, fun _ _ => rfl⟩

def divisor : Slot := ⟨.divisor false, .symbol true, .term true, fun _ => rfl, fun _ _ => rfl⟩

def inGroup : Slot := ⟨.groupFactor, .groupSymbol, .groupTerm, fun _ => rfl, fun _ _ => rfl⟩

end Slot

/-- A term is read with the sign of its slot, whatever lexeme other than an exponent follows. -/
theorem parses_term (slot : Slot) {part : String × Int} (lexeme : Lexeme) {lexemes : List Lexeme}
    {parts : List (String × Int)} (range : part.2.natAbs ≤ 9)
    (plain : ∀ negative digit, lexeme ≠ .exponent negative digit)
    (symbol : Parses slot.behindSymbol (lexeme :: lexemes) parts)
    (term : Parses slot.behindTerm (lexeme :: lexemes) parts) :
    Parses slot.entry (termLexemes part ++ lexeme :: lexemes)
      ((part.1, slot.entry.sign * part.2) :: parts) := by
  intro tokens same
  rw [termLexemes, List.cons_append] at same
  obtain ⟨position, rest, rfl, behind⟩ := tokens_eq_cons same
  have entry := slot.symbol_next part.1
  by_cases one : part.2 = 1
  · rw [if_pos one, List.nil_append] at behind
    obtain ⟨parsed, isRead, content⟩ := symbol rest behind
    obtain ⟨next, after, rfl, _⟩ := tokens_eq_cons behind
    refine ⟨⟨part.1, slot.entry.sign * part.2, position⟩ :: parsed, ?_, by
      rw [List.map_cons, content]
      rfl⟩
    have leading : leadingExponent (⟨lexeme, next⟩ :: after) = 1 := by
      unfold leadingExponent
      split
      next negative digit _ _ head => exact absurd (by simp_all) (plain negative digit)
      next => rfl
    rw [read, if_neg (by simp), entry]
    simp [isRead, Except.map, one, leading]
  · rw [if_neg one, List.cons_append, List.nil_append] at behind
    obtain ⟨_, after, rfl, further⟩ := tokens_eq_cons behind
    obtain ⟨parsed, isRead, content⟩ := term after further
    refine ⟨⟨part.1, slot.entry.sign * part.2, position⟩ :: parsed, ?_, by
      rw [List.map_cons, content]
      rfl⟩
    have exponent := slot.exponent_next (decide (part.2 < 0)) (Nat.digitChar part.2.natAbs)
    rw [read, if_neg (by simp), entry]
    simp only [read, exponent]
    simp [isRead, Except.map, leadingExponent, exponentValue_digitChar range]

/-- A product is read with the sign of the slot it stands in. -/
theorem parses_product (slot next : Slot) (sign : Char) (lexeme : Lexeme) {part : String × Int}
    {lexemes : List Lexeme} {more parts : List (String × Int)}
    (range : ∀ p ∈ part :: more, p.2.natAbs ≤ 9)
    (plain : ∀ negative digit, lexeme ≠ .exponent negative digit)
    (alike : next.behindSymbol = slot.behindSymbol ∧ next.behindTerm = slot.behindTerm ∧
      next.entry.sign = slot.entry.sign)
    (times : slot.behindSymbol.next (.times sign) = .ok next.entry ∧
      slot.behindTerm.next (.times sign) = .ok next.entry)
    (symbol : Parses slot.behindSymbol (lexeme :: lexemes) parts)
    (term : Parses slot.behindTerm (lexeme :: lexemes) parts) :
    Parses slot.entry (productLexemes sign (part :: more) ++ lexeme :: lexemes)
      ((part :: more).map (fun p => (p.1, slot.entry.sign * p.2)) ++ parts) := by
  induction more generalizing slot part with
  | nil =>
    simpa [productLexemes] using parses_term slot lexeme (range part (by simp)) plain symbol term
  | cons other more ih =>
    obtain ⟨sameSymbol, sameTerm, sameSign⟩ := alike
    have rest := ih next (fun p mem => range p (List.mem_cons_of_mem _ mem)) ⟨rfl, rfl, rfl⟩
      (by rw [sameSymbol, sameTerm]; exact times) (sameSymbol ▸ symbol) (sameTerm ▸ term)
    rw [sameSign] at rest
    rw [productLexemes_cons_cons, List.append_assoc, List.cons_append, List.map_cons,
      List.cons_append]
    exact parses_term slot (.times sign) (range part (by simp)) (by simp)
      (parses_step (.times sign) times.1 (by simp) (by simp) rest)
      (parses_step (.times sign) times.2 (by simp) (by simp) rest)

/-! ### Whole expressions -/

variable {sign : Char} {part : String × Int} {more : List (String × Int)}

/-- A product by itself, or in front of a slash. -/
theorem parses_numerator {lexeme : Lexeme} {lexemes : List Lexeme} {parts : List (String × Int)}
    (range : ∀ p ∈ part :: more, p.2.natAbs ≤ 9)
    (plain : ∀ negative digit, lexeme ≠ .exponent negative digit)
    (symbol : Parses (.symbol false) (lexeme :: lexemes) parts)
    (term : Parses (.term false) (lexeme :: lexemes) parts) :
    Parses .start (productLexemes sign (part :: more) ++ lexeme :: lexemes)
      (part :: more ++ parts) := by
  have parses := parses_product .first .further sign lexeme range plain ⟨rfl, rfl, rfl⟩ ⟨rfl, rfl⟩
    symbol term
  simpa [Slot.first, State.sign] using parses

theorem parses_alone (range : ∀ p ∈ part :: more, p.2.natAbs ≤ 9) :
    Parses .start (productLexemes sign (part :: more) ++ [.finish]) (part :: more) := by
  simpa using parses_numerator range (by simp) (parses_finish rfl) (parses_finish rfl)

/-- A product over a single term. -/
theorem parses_quotient {divisor : String × Int} (range : ∀ p ∈ part :: more, p.2.natAbs ≤ 9)
    (under : divisor.2.natAbs ≤ 9) :
    Parses .start
      (productLexemes sign (part :: more) ++ .slash :: (termLexemes divisor ++ [.finish]))
      (part :: more ++ [(divisor.1, -divisor.2)]) := by
  have bottom : Parses (.divisor false) (termLexemes divisor ++ [.finish])
      [(divisor.1, -divisor.2)] := by
    have parses := parses_term .divisor .finish under (by simp) (parses_finish rfl)
      (parses_finish rfl)
    simpa [Slot.divisor, State.sign] using parses
  exact parses_numerator range (by simp) (parses_step .slash rfl (by simp) (by simp) bottom)
    (parses_step .slash rfl (by simp) (by simp) bottom)

/-- A product over a product in parentheses. -/
theorem parses_groupQuotient {divisor : String × Int} {divisors : List (String × Int)}
    (range : ∀ p ∈ part :: more, p.2.natAbs ≤ 9)
    (under : ∀ p ∈ divisor :: divisors, p.2.natAbs ≤ 9) :
    Parses .start
      (productLexemes sign (part :: more)
        ++ .slash :: .opening :: (productLexemes sign (divisor :: divisors) ++ [.closing, .finish]))
      (part :: more ++ (divisor :: divisors).map fun p => (p.1, -p.2)) := by
  have closed : Parses .closed [.finish] [] := parses_finish rfl
  have group : Parses .groupFactor
      (productLexemes sign (divisor :: divisors) ++ [.closing, .finish])
      ((divisor :: divisors).map fun p => (p.1, -p.2)) := by
    have parses := parses_product .inGroup .inGroup sign .closing under (by simp) ⟨rfl, rfl, rfl⟩
      ⟨rfl, rfl⟩ (parses_step .closing rfl (by simp) (by simp) closed)
      (parses_step .closing rfl (by simp) (by simp) closed)
    simpa [Slot.inGroup, State.sign] using parses
  have bottom : Parses (.divisor false) _ _ :=
    parses_step .opening rfl (by simp) (by simp) group
  exact parses_numerator range (by simp) (parses_step .slash rfl (by simp) (by simp) bottom)
    (parses_step .slash rfl (by simp) (by simp) bottom)

end Parser

end Metrology
