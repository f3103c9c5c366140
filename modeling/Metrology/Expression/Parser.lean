import Metrology.Expression.Scanner

/-!
# Parsing unit expressions

An expression is empty, or terms joined by multiplication signs and slashes, or a product, one slash
and a product in parentheses. A slash negates the exponent of the term right behind it, a group is
negated as a whole. The parser reads one token at a time and stops at the first token that fits no
expression.
-/
namespace Metrology

/-- One term of an expression, the sign of a division already applied. -/
structure ParsedTerm where
  symbol : String
  exponent : Int
  position : Nat
  deriving DecidableEq, Repr

namespace Parser

/-- What has been read. `divided` tells whether a slash came before. -/
inductive State where
  | start
  /-- behind a multiplication sign -/
  | factor (divided : Bool)
  /-- behind a slash -/
  | divisor (divided : Bool)
  /-- behind a symbol, where an exponent may follow -/
  | symbol (divided : Bool)
  /-- behind a whole term -/
  | term (divided : Bool)
  /-- inside a group where a symbol must follow -/
  | groupFactor
  | groupSymbol
  | groupTerm
  /-- behind a group -/
  | closed
  deriving DecidableEq, Repr

/-- The exponent at the head of the tokens, 1 if there is none. -/
def leadingExponent : List Token → Int
  | ⟨.exponent negative digit, _⟩ :: _ => exponentValue negative digit
  | _ => 1

/-- The fault of a lexeme where a symbol must stand. -/
def symbolFault (lexeme : Lexeme) : SyntaxFault :=
  match lexeme with
  | .finish => .expectedSymbol none
  | other => .expectedSymbol (some other.text)

/-- Whether an expression may end here. -/
def State.accepts : State → Bool
  | .start | .symbol _ | .term _ | .closed => true
  | _ => false

/-- The sign with which a symbol read here counts. -/
def State.sign : State → Int
  | .divisor _ | .groupFactor => -1
  | _ => 1

/-- The next state, or the fault of the lexeme. -/
def State.next : State → Lexeme → Except SyntaxFault State
  | .start, .symbol _ => .ok (.symbol false)
  | .start, lexeme => .error (symbolFault lexeme)
  | .factor divided, .symbol _ => .ok (.symbol divided)
  | .factor _, lexeme => .error (symbolFault lexeme)
  | .divisor _, .symbol _ => .ok (.symbol true)
  | .divisor false, .opening => .ok .groupFactor
  | .divisor true, .opening => .error .lateGroup
  | .divisor _, lexeme => .error (symbolFault lexeme)
  | .symbol divided, .exponent _ _ => .ok (.term divided)
  | .symbol divided, lexeme => operator divided lexeme
  | .term divided, lexeme => operator divided lexeme
  | .groupFactor, .symbol _ => .ok .groupSymbol
  | .groupFactor, lexeme => .error (symbolFault lexeme)
  | .groupSymbol, .exponent _ _ => .ok .groupTerm
  | .groupSymbol, lexeme => groupOperator lexeme
  | .groupTerm, lexeme => groupOperator lexeme
  | .closed, lexeme => .error (.afterGroup lexeme.text)
where
  operator (divided : Bool) : Lexeme → Except SyntaxFault State
    | .times _ => .ok (.factor divided)
    | .slash => .ok (.divisor divided)
    | lexeme => .error (.expectedOperator lexeme.text)
  groupOperator : Lexeme → Except SyntaxFault State
    | .times _ => .ok .groupFactor
    | .closing => .ok .closed
    | .finish => .error .unclosedGroup
    | lexeme => .error (.groupOperator lexeme.text)

/-- Reads tokens up to the end mark, from a state. -/
def read (state : State) : List Token → Except SyntaxError (List ParsedTerm)
  | [] => .ok []
  | ⟨lexeme, position⟩ :: rest =>
    if lexeme = .finish ∧ state.accepts then .ok []
    else match state.next lexeme with
      | .error fault => .error ⟨fault, position⟩
      | .ok next =>
        match lexeme with
        | .symbol text =>
          (read next rest).map (⟨text, state.sign * leadingExponent rest, position⟩ :: ·)
        | _ => read next rest

end Parser

/-- The terms of an expression given by its tokens, or the first fault. -/
def parseTokens (tokens : List Token) : Except SyntaxError (List ParsedTerm) :=
  Parser.read .start tokens

/-- Reads a unit expression. -/
def parseExpression (source : String) : Except Error (List ParsedTerm) := do
  let tokens ← tokenize source
  (parseTokens tokens).mapError fun e => .malformed e source

end Metrology
