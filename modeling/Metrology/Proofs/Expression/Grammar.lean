import Mathlib.Computability.Language
import Metrology.Expression.Parser

/-!
# The grammar of unit expressions

The kinds of tokens that a unit expression may consist of, as a regular language, and the parser as
an automaton for it: the language of a state holds what may still follow there. So the parser
accepts the sentences of the grammar and no other tokens, and it stops at the first token that no
sentence goes on with.
-/
namespace Metrology

/-- What a lexeme is, its text left aside. -/
inductive LexemeKind where
  | symbol | exponent | times | slash | opening | closing | finish
  deriving DecidableEq, Repr

def Lexeme.kind : Lexeme → LexemeKind
  | .symbol _ => .symbol
  | .exponent _ _ => .exponent
  | .times _ => .times
  | .slash => .slash
  | .opening => .opening
  | .closing => .closing
  | .finish => .finish

def Token.kind (t : Token) : LexemeKind := t.lexeme.kind

@[simp] theorem Token.kind_mk (lexeme : Lexeme) (position : Nat) :
    Token.kind ⟨lexeme, position⟩ = lexeme.kind := rfl

/-! ### Sentences -/

namespace Grammar

open scoped Computability

/-- A single token of a kind. -/
def one (kind : LexemeKind) : Language LexemeKind := {[kind]}

/-- A symbol with an exponent or without. -/
def term : Language LexemeKind := one .symbol * (1 + one .exponent)

/-- Terms, each behind a multiplication sign or a slash. -/
def tail : Language LexemeKind := ((one .times + one .slash) * term)∗

/-- Terms, each behind a multiplication sign. -/
def factors : Language LexemeKind := (one .times * term)∗

/-- Nothing, or terms joined by multiplication signs and slashes, or a product over a product in
parentheses. -/
def sentences : Language LexemeKind :=
  1 + term * tail + term * factors * one .slash * one .opening * term * factors * one .closing

/-- Whether some word of a language goes on with a token behind others. The end mark stands behind
whole words. -/
def Continues (l : Language LexemeKind) (before : List LexemeKind) : LexemeKind → Prop
  | .finish => before ∈ l
  | kind => ∃ after, before ++ kind :: after ∈ l

/-! ### Languages by their first token -/

variable {kind first : LexemeKind} {rest : List LexemeKind} {l : Language LexemeKind}

@[simp] theorem nil_mem_one : ([] : List LexemeKind) ∈ one kind ↔ False := by
  constructor
  · intro mem
    cases mem
  · exact False.elim

@[simp] theorem cons_mem_one : first :: rest ∈ one kind ↔ first = kind ∧ rest = [] := by
  constructor
  · intro mem
    cases mem
    exact ⟨rfl, rfl⟩
  · rintro ⟨rfl, rfl⟩
    rfl

@[simp] theorem nil_mem_one_mul : ([] : List LexemeKind) ∈ one kind * l ↔ False := by
  rw [Language.mem_mul]
  constructor
  · rintro ⟨_, rfl, b, _, same⟩
    simp at same
  · exact False.elim

@[simp] theorem cons_mem_one_mul : first :: rest ∈ one kind * l ↔ first = kind ∧ rest ∈ l := by
  rw [Language.mem_mul]
  constructor
  · rintro ⟨_, rfl, b, mem, same⟩
    obtain ⟨rfl, rfl⟩ := List.cons.inj same
    exact ⟨rfl, mem⟩
  · rintro ⟨rfl, mem⟩
    exact ⟨[first], rfl, rest, mem, rfl⟩

/-- What may follow the symbol of a term in front of a language. -/
def behindSymbol (l : Language LexemeKind) : Language LexemeKind := l + one .exponent * l

theorem term_mul (l : Language LexemeKind) : term * l = one .symbol * behindSymbol l := by
  rw [term, behindSymbol, mul_assoc, add_mul, one_mul]

theorem tail_eq :
    tail = 1 + (one .times * (term * tail) + one .slash * (term * tail)) := by
  conv_lhs => rw [tail, ← Language.one_add_self_mul_kstar_eq_kstar]
  rw [← tail, mul_assoc, add_mul]

theorem factors_eq : factors = 1 + one .times * (term * factors) := by
  conv_lhs => rw [factors, ← Language.one_add_self_mul_kstar_eq_kstar]
  rw [← factors, mul_assoc]

/-- What may follow a term in a group, up to the parenthesis that closes it. -/
def groupTail : Language LexemeKind := factors * one .closing

theorem groupTail_eq : groupTail = one .closing + one .times * (term * groupTail) := by
  conv_lhs => rw [groupTail, factors_eq, add_mul, one_mul]
  rw [groupTail, mul_assoc, mul_assoc]

/-- A slash and a product in parentheses. -/
def group : Language LexemeKind := one .slash * (one .opening * (term * groupTail))

/-- What may follow a term. A group is out of the question once a slash came before. -/
def termTail : Bool → Language LexemeKind
  | true => tail
  | false => tail + factors * group

theorem termTail_true :
    termTail true = 1 + (one .times * (term * termTail true) + one .slash * (term * termTail true)) :=
  tail_eq

/-- Behind a multiplication sign all is as before it, behind the first slash a group may follow. -/
theorem termTail_false :
    termTail false = 1 + (one .times * (term * termTail false) +
      one .slash * (term * termTail true + one .opening * (term * groupTail))) := by
  have unrolled : factors * group = group + one .times * (term * (factors * group)) := by
    conv_lhs => rw [factors_eq, add_mul, one_mul]
    simp only [mul_assoc]
  conv_lhs => rw [termTail, tail_eq, unrolled]
  simp only [termTail, mul_add, group, add_assoc, add_left_comm, add_comm]

theorem sentences_eq : sentences = 1 + term * termTail false := by
  simp only [sentences, termTail, groupTail, group, mul_add, mul_assoc, add_assoc]

end Grammar

/-! ### The parser as an automaton -/

namespace Parser

open Grammar (one behindSymbol termTail groupTail termTail_true termTail_false groupTail_eq
  sentences_eq term_mul)

/-- What may still follow in a state. -/
def State.language : State → Language LexemeKind
  | .start => Grammar.sentences
  | .factor divided => Grammar.term * termTail divided
  | .divisor false => Grammar.term * termTail true + one .opening * (Grammar.term * groupTail)
  | .divisor true => Grammar.term * termTail true
  | .symbol divided => behindSymbol (termTail divided)
  | .term divided => termTail divided
  | .groupFactor => Grammar.term * groupTail
  | .groupSymbol => behindSymbol groupTail
  | .groupTerm => groupTail
  | .closed => 1

/-- Where nothing need follow, the state accepts. -/
theorem nil_mem_language (state : State) : [] ∈ state.language ↔ state.accepts = true := by
  have tail (divided : Bool) : [] ∈ termTail divided := by
    cases divided
    · rw [termTail_false]
      simp [Language.mem_add, Language.mem_one]
    · rw [termTail_true]
      simp [Language.mem_add, Language.mem_one]
  have group : ¬ [] ∈ groupTail := by
    rw [groupTail_eq]
    simp [Language.mem_add]
  cases state with
  | start => simp [State.language, State.accepts, sentences_eq, Language.mem_add, Language.mem_one]
  | divisor divided =>
    cases divided <;> simp [State.language, State.accepts, term_mul, Language.mem_add]
  | factor _ | groupFactor => simp [State.language, State.accepts, term_mul]
  | symbol divided =>
    simp [State.language, State.accepts, behindSymbol, Language.mem_add, tail divided]
  | term divided => simpa [State.language, State.accepts] using tail divided
  | groupSymbol => simpa [State.language, State.accepts, behindSymbol, Language.mem_add] using group
  | groupTerm => simpa [State.language, State.accepts] using group
  | closed => simp [State.language, State.accepts, Language.mem_one]

theorem cons_mem_termTail (divided : Bool) {lexeme : Lexeme} (inner : lexeme ≠ .finish)
    (rest : List LexemeKind) :
    lexeme.kind :: rest ∈ termTail divided ↔
      ∃ next, State.next.operator divided lexeme = .ok next ∧ rest ∈ next.language := by
  cases divided
  · rw [termTail_false]
    cases lexeme with
    | finish => exact absurd rfl inner
    | _ =>
      unfold State.next.operator
      simp [Lexeme.kind, State.language, Language.mem_add]
  · rw [termTail_true]
    cases lexeme with
    | finish => exact absurd rfl inner
    | _ =>
      unfold State.next.operator
      simp [Lexeme.kind, State.language, Language.mem_add]

theorem cons_mem_groupTail {lexeme : Lexeme} (inner : lexeme ≠ .finish)
    (rest : List LexemeKind) :
    lexeme.kind :: rest ∈ groupTail ↔
      ∃ next, State.next.groupOperator lexeme = .ok next ∧ rest ∈ next.language := by
  rw [groupTail_eq]
  cases lexeme with
  | finish => exact absurd rfl inner
  | _ =>
    unfold State.next.groupOperator
    simp [Lexeme.kind, State.language, Language.mem_add, Language.mem_one]

/-- A token may follow exactly if the parser takes it, and then what may follow it is left to the
next state. -/
theorem cons_mem_language (state : State) {lexeme : Lexeme} (inner : lexeme ≠ .finish)
    (rest : List LexemeKind) :
    lexeme.kind :: rest ∈ state.language ↔
      ∃ next, state.next lexeme = .ok next ∧ rest ∈ next.language := by
  cases state with
  | start =>
    cases lexeme with
    | finish => exact absurd rfl inner
    | _ =>
      simp [Lexeme.kind, State.next, State.language, sentences_eq, term_mul, Language.mem_add]
  | factor divided =>
    cases lexeme <;> simp_all [Lexeme.kind, State.next, State.language, term_mul]
  | divisor divided =>
    cases divided <;> cases lexeme <;>
      simp_all [Lexeme.kind, State.next, State.language, term_mul, Language.mem_add]
  | symbol divided =>
    have tail := cons_mem_termTail divided inner rest
    cases lexeme with
    | exponent negative digit =>
      unfold State.next.operator at tail
      simp_all [Lexeme.kind, State.next, State.language, behindSymbol, Language.mem_add]
    | _ => simpa [Lexeme.kind, State.next, State.language, behindSymbol, Language.mem_add] using tail
  | term divided =>
    simpa only [State.next, State.language] using cons_mem_termTail divided inner rest
  | groupFactor =>
    cases lexeme <;> simp_all [Lexeme.kind, State.next, State.language, term_mul]
  | groupSymbol =>
    have tail := cons_mem_groupTail inner rest
    cases lexeme with
    | exponent negative digit =>
      unfold State.next.groupOperator at tail
      simp_all [Lexeme.kind, State.next, State.language, behindSymbol, Language.mem_add]
    | _ => simpa [Lexeme.kind, State.next, State.language, behindSymbol, Language.mem_add] using tail
  | groupTerm => simpa only [State.next, State.language] using cons_mem_groupTail inner rest
  | closed => simp [State.next, State.language]

/-- From every state the expression can be brought to an end. -/
theorem language_nonempty (state : State) : ∃ rest, rest ∈ state.language := by
  have tail (divided : Bool) : [] ∈ termTail divided := (nil_mem_language (.term divided)).mpr rfl
  have group : [.closing] ∈ groupTail := by
    rw [groupTail_eq]
    simp [Language.mem_add]
  have term {rest : List LexemeKind} {l : Language LexemeKind} (mem : rest ∈ l) :
      .symbol :: rest ∈ Grammar.term * l := by
    simp [term_mul, behindSymbol, Language.mem_add, mem]
  cases state with
  | start => exact ⟨[], (nil_mem_language .start).mpr rfl⟩
  | factor divided => exact ⟨_, term (tail divided)⟩
  | divisor divided =>
    cases divided with
    | false => exact ⟨_, .inl (term (tail true))⟩
    | true => exact ⟨_, term (tail true)⟩
  | symbol divided => exact ⟨_, .inl (tail divided)⟩
  | term divided => exact ⟨_, tail divided⟩
  | groupFactor => exact ⟨_, term group⟩
  | groupSymbol => exact ⟨_, .inl group⟩
  | groupTerm => exact ⟨_, group⟩
  | closed => exact ⟨[], rfl⟩

/-- No state lies behind the end mark. -/
theorem next_finish (state : State) : ∃ fault, state.next .finish = .error fault := by
  cases state with
  | divisor divided => cases divided <;> exact ⟨_, rfl⟩
  | _ => exact ⟨_, rfl⟩

end Parser

end Metrology
