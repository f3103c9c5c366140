import Metrology.Proofs.Expression.Grammar

/-!
# What the parser accepts

The parser reads exactly the sentences of the grammar. The terms it gives are the symbols of a
sentence with the exponents written behind them, negated behind a slash and in a group; a fault
stands at the first token with which no sentence goes on.
-/
namespace Metrology

/-- If the token is an exponent, its digit is a decimal one. -/
def Token.HasDecimalDigit (t : Token) : Prop :=
  ∀ negative digit, t.lexeme = .exponent negative digit → ∃ n, Text.decimalValue? digit = some n

namespace Grammar

/-- The first of the tokens that no word of a language goes on with. -/
def FirstMisfit (l : Language LexemeKind) (tokens : List Token) (t : Token) : Prop :=
  ∃ before after, tokens = before ++ t :: after ∧ ¬ Continues l (before.map Token.kind) t.kind ∧
    ∀ earlier u later, before = earlier ++ u :: later →
      Continues l (earlier.map Token.kind) u.kind

/-- Whether a symbol behind other tokens divides: right behind a slash, or in an open group. -/
def Divides (before : List LexemeKind) : Prop :=
  [.slash] <:+ before ∨ ∃ outside inside, before = outside ++ .opening :: inside ∧ .closing ∉ inside

/-- The exponent written at the head of the tokens, 1 if there is none. -/
inductive Written : List Token → Int → Prop
  | exponent (negative : Bool) {digit : Char} (position : Nat) {n : Nat} (rest : List Token)
      (value : Text.decimalValue? digit = some n) :
      Written (⟨.exponent negative digit, position⟩ :: rest) (if negative then -n else n)
  | omitted {tokens : List Token} (absent : ∀ t ∈ tokens.head?, t.kind ≠ .exponent) :
      Written tokens 1

/-- The terms that tokens stand for, given the tokens before them. -/
inductive Denotes : List Token → List Token → List ParsedTerm → Prop
  | nothing (before : List Token) : Denotes before [] []
  | symbol {before rest : List Token} {text : String} {position : Nat} {written exponent : Int}
      {terms : List ParsedTerm} (power : Written rest written)
      (divisor : Divides (before.map Token.kind) → exponent = -written)
      (factor : ¬ Divides (before.map Token.kind) → exponent = written)
      (more : Denotes (before ++ [⟨.symbol text, position⟩]) rest terms) :
      Denotes before (⟨.symbol text, position⟩ :: rest) (⟨text, exponent, position⟩ :: terms)
  | other {before rest : List Token} {t : Token} {terms : List ParsedTerm}
      (plain : t.kind ≠ .symbol) (more : Denotes (before ++ [t]) rest terms) :
      Denotes before (t :: rest) terms

end Grammar

open Grammar

namespace Parser

variable {state next : State} {lexeme : Lexeme} {position : Nat}

/-! ### One token -/

/-- The terms that a token adds, given the tokens behind it. -/
def State.added (state : State) (lexeme : Lexeme) (position : Nat) (rest : List Token) :
    List ParsedTerm :=
  match lexeme with
  | .symbol text => [⟨text, state.sign * leadingExponent rest, position⟩]
  | _ => []

theorem read_step (inner : lexeme ≠ .finish) (step : state.next lexeme = .ok next)
    (rest : List Token) :
    read state (⟨lexeme, position⟩ :: rest) =
      (read next rest).map (state.added lexeme position rest ++ ·) := by
  rw [read, if_neg (fun ends => inner ends.1), step]
  cases more : read next rest <;> cases lexeme <;> simp [more, State.added, Except.map]

theorem read_fault {fault : SyntaxFault} (inner : lexeme ≠ .finish)
    (wrong : state.next lexeme = .error fault) (rest : List Token) :
    read state (⟨lexeme, position⟩ :: rest) = .error ⟨fault, position⟩ := by
  rw [read, if_neg (fun ends => inner ends.1), wrong]

theorem step_mem_language (inner : lexeme ≠ .finish) (step : state.next lexeme = .ok next)
    (rest : List LexemeKind) :
    lexeme.kind :: rest ∈ state.language ↔ rest ∈ next.language := by
  rw [cons_mem_language state inner, step]
  simp

theorem fault_notMem_language {fault : SyntaxFault} (inner : lexeme ≠ .finish)
    (wrong : state.next lexeme = .error fault) (rest : List LexemeKind) :
    lexeme.kind :: rest ∉ state.language := by
  rw [cons_mem_language state inner, wrong]
  simp

/-- Any token goes on behind a first one exactly if it goes on from the next state. -/
theorem step_continues (inner : lexeme ≠ .finish) (step : state.next lexeme = .ok next)
    (before : List LexemeKind) (kind : LexemeKind) :
    Continues state.language (lexeme.kind :: before) kind ↔
      Continues next.language before kind := by
  have mem := step_mem_language inner step
  cases kind with
  | finish => exact mem before
  | _ => exact exists_congr fun after => mem (before ++ _ :: after)

theorem continues_of_step (inner : lexeme ≠ .finish) (step : state.next lexeme = .ok next) :
    Continues state.language [] lexeme.kind := by
  obtain ⟨rest, mem⟩ := language_nonempty next
  have more := (step_mem_language inner step rest).mpr mem
  cases lexeme with
  | finish => exact absurd rfl inner
  | _ => exact ⟨rest, more⟩

/-- A token that the state refuses is a misfit. -/
theorem not_continues_of_fault {fault : SyntaxFault} (inner : lexeme ≠ .finish)
    (wrong : state.next lexeme = .error fault) : ¬ Continues state.language [] lexeme.kind := by
  intro continues
  cases lexeme with
  | finish => exact inner rfl
  | _ =>
    obtain ⟨rest, mem⟩ := continues
    exact fault_notMem_language inner wrong rest mem

/-- The first misfit behind a token that the state takes. -/
theorem firstMisfit_step (inner : lexeme ≠ .finish) (step : state.next lexeme = .ok next)
    {tokens : List Token} {t : Token} (misfit : FirstMisfit next.language tokens t) :
    FirstMisfit state.language (⟨lexeme, position⟩ :: tokens) t := by
  obtain ⟨before, after, rfl, stops, fits⟩ := misfit
  refine ⟨⟨lexeme, position⟩ :: before, after, rfl, ?_, ?_⟩
  · rwa [List.map_cons, Token.kind_mk, step_continues inner step]
  · intro earlier u later same
    cases earlier with
    | nil =>
      obtain ⟨rfl, -⟩ := List.cons.inj same
      exact continues_of_step inner step
    | cons first earlier =>
      obtain ⟨rfl, split⟩ := List.cons.inj same
      exact (step_continues inner step _ _).mpr (fits earlier u later split)

/-! ### Acceptance and the place of the fault -/

variable {tokens : List Token}

theorem read_accepts_iff (inner : ∀ t ∈ tokens, t.lexeme ≠ .finish) :
    (∃ terms, read state (tokens ++ [⟨.finish, position⟩]) = .ok terms) ↔
      tokens.map Token.kind ∈ state.language := by
  induction tokens generalizing state with
  | nil =>
    obtain ⟨fault, wrong⟩ := next_finish state
    rw [List.map_nil, nil_mem_language, List.nil_append, read]
    cases accepts : state.accepts <;> simp [wrong]
  | cons t rest ih =>
    obtain ⟨lexeme, place⟩ := t
    obtain ⟨here, behind⟩ := List.forall_mem_cons.mp inner
    rw [List.cons_append, List.map_cons, Token.kind_mk]
    cases step : state.next lexeme with
    | error fault =>
      rw [read_fault here step]
      simpa using fault_notMem_language here step (rest.map Token.kind)
    | ok next =>
      rw [read_step here step]
      refine Iff.trans ?_ (step_mem_language here step (rest.map Token.kind)).symm
      rw [← ih behind]
      cases read next (rest ++ [⟨.finish, position⟩]) <;> simp [Except.map]

theorem read_fault_at_misfit (inner : ∀ t ∈ tokens, t.lexeme ≠ .finish) {e : SyntaxError}
    (failed : read state (tokens ++ [⟨.finish, position⟩]) = .error e) :
    ∃ t, FirstMisfit state.language (tokens ++ [⟨.finish, position⟩]) t ∧
      e.position = t.position := by
  induction tokens generalizing state with
  | nil =>
    refine ⟨⟨.finish, position⟩, ⟨[], [], rfl, ?_, by simp⟩, ?_⟩
    · intro mem
      obtain ⟨terms, accepted⟩ : ∃ terms, read state ([] ++ [⟨.finish, position⟩]) = .ok terms :=
        (read_accepts_iff inner).mpr mem
      rw [accepted] at failed
      cases failed
    · obtain ⟨fault, wrong⟩ := next_finish state
      rw [List.nil_append, read] at failed
      cases accepts : state.accepts <;> simp [wrong, accepts] at failed
      rw [← failed]
  | cons t rest ih =>
    obtain ⟨lexeme, place⟩ := t
    obtain ⟨here, behind⟩ := List.forall_mem_cons.mp inner
    rw [List.cons_append] at failed ⊢
    cases step : state.next lexeme with
    | error fault =>
      rw [read_fault here step] at failed
      cases failed
      exact ⟨_, ⟨[], _, rfl, not_continues_of_fault here step, by simp⟩, rfl⟩
    | ok next =>
      rw [read_step here step] at failed
      cases later : read next (rest ++ [⟨.finish, position⟩]) with
      | ok terms =>
        rw [later] at failed
        cases failed
      | error e' =>
        rw [later] at failed
        cases failed
        obtain ⟨u, misfit, same⟩ := ih behind later
        exact ⟨u, firstMisfit_step here step misfit, same⟩

/-! ### Exponents and signs -/

/-- What the tokens read so far say about a state. Within a group an opened parenthesis is still to
be closed, in front of it none was opened. -/
def State.Follows (before : List LexemeKind) : State → Prop
  | .start => before = []
  | .factor _ => [.times] <:+ before ∧ .opening ∉ before
  | .divisor _ => [.slash] <:+ before ∧ .opening ∉ before
  | .symbol _ | .term _ => .opening ∉ before
  | .groupFactor | .groupSymbol | .groupTerm =>
    ∃ outside inside, before = outside ++ .opening :: inside ∧ .closing ∉ inside
  | .closed => True

theorem inGroup_snoc {before : List LexemeKind} {kind : LexemeKind} (stays : kind ≠ .closing)
    (isOpen : ∃ outside inside, before = outside ++ .opening :: inside ∧
      LexemeKind.closing ∉ inside) :
    ∃ outside inside, before ++ [kind] = outside ++ .opening :: inside ∧
      LexemeKind.closing ∉ inside := by
  obtain ⟨outside, inside, rfl, closed⟩ := isOpen
  exact ⟨outside, inside ++ [kind], by simp, by simp [closed, Ne.symm stays]⟩

theorem follows_step {before : List LexemeKind} (follows : state.Follows before)
    (step : state.next lexeme = .ok next) : next.Follows (before ++ [lexeme.kind]) := by
  have operator {divided : Bool} (outside : LexemeKind.opening ∉ before)
      (step : State.next.operator divided lexeme = .ok next) :
      next.Follows (before ++ [lexeme.kind]) := by
    cases lexeme <;> cases step <;> simp [State.Follows, Lexeme.kind, outside]
  have groupOperator (inside : State.groupTerm.Follows before)
      (step : State.next.groupOperator lexeme = .ok next) :
      next.Follows (before ++ [lexeme.kind]) := by
    cases lexeme <;> cases step
    · exact inGroup_snoc (by simp [Lexeme.kind]) inside
    · trivial
  cases state with
  | start =>
    cases lexeme <;> cases step
    simp_all [State.Follows, Lexeme.kind]
  | factor divided =>
    cases lexeme <;> cases step
    simp [State.Follows, Lexeme.kind, follows.2]
  | divisor divided =>
    cases divided <;> cases lexeme <;> cases step
    · simp [State.Follows, Lexeme.kind, follows.2]
    · exact ⟨before, [], rfl, by simp⟩
    · simp [State.Follows, Lexeme.kind, follows.2]
  | symbol divided =>
    cases lexeme with
    | exponent negative digit =>
      cases step
      simpa [State.Follows, Lexeme.kind] using follows
    | _ => exact @operator divided follows step
  | term divided => exact operator follows step
  | groupFactor =>
    cases lexeme <;> cases step
    exact inGroup_snoc (by simp [Lexeme.kind]) follows
  | groupSymbol =>
    cases lexeme with
    | exponent negative digit =>
      cases step
      exact inGroup_snoc (by simp [Lexeme.kind]) follows
    | _ => exact groupOperator follows step
  | groupTerm => exact groupOperator follows step
  | closed => cases step

/-- Where a symbol may stand, its sign is -1 exactly if it divides. -/
theorem sign_of_follows {before : List LexemeKind} {text : String}
    (follows : state.Follows before) (step : state.next (.symbol text) = .ok next) :
    (Divides before → state.sign = -1) ∧ (¬ Divides before → state.sign = 1) := by
  have outside (noGroup : LexemeKind.opening ∉ before) (divides : Divides before) :
      [.slash] <:+ before := by
    rcases divides with slash | ⟨_, _, rfl, _⟩
    · exact slash
    · simp at noGroup
  cases state with
  | start =>
    refine ⟨fun divides => ?_, fun _ => rfl⟩
    have slash := outside (by simp [show before = [] from follows]) divides
    rw [show before = [] from follows] at slash
    simp at slash
  | factor divided =>
    refine ⟨fun divides => ?_, fun _ => rfl⟩
    obtain ⟨front, rfl⟩ := outside follows.2 divides
    simpa using follows.1
  | divisor divided => exact ⟨fun _ => rfl, fun no => absurd (.inl follows.1) no⟩
  | groupFactor => exact ⟨fun _ => rfl, fun no => absurd (.inr follows) no⟩
  | symbol _ | term _ | groupSymbol | groupTerm | closed => cases step

/-- The exponent read behind a symbol is the one that is written there. -/
theorem written_leadingExponent
    (decimal : ∀ t ∈ tokens, t.HasDecimalDigit) :
    Written tokens (leadingExponent (tokens ++ [⟨.finish, position⟩])) := by
  cases tokens with
  | nil => exact .omitted (by simp)
  | cons t rest =>
    obtain ⟨lexeme, place⟩ := t
    cases lexeme with
    | exponent negative digit =>
      obtain ⟨n, value⟩ := decimal _ List.mem_cons_self negative digit rfl
      have same : leadingExponent (⟨.exponent negative digit, place⟩ :: rest ++
          [⟨.finish, position⟩]) = if negative then -(n : Int) else n := by
        simp [leadingExponent, exponentValue, value]
      rw [same]
      exact .exponent negative place rest value
    | _ => exact .omitted (by simp [Lexeme.kind])

theorem denotes_of_read {before : List Token} {terms : List ParsedTerm}
    (inner : ∀ t ∈ tokens, t.lexeme ≠ .finish)
    (decimal : ∀ t ∈ tokens, t.HasDecimalDigit)
    (follows : state.Follows (before.map Token.kind))
    (accepted : read state (tokens ++ [⟨.finish, position⟩]) = .ok terms) :
    Denotes before tokens terms := by
  induction tokens generalizing state before terms with
  | nil =>
    obtain ⟨fault, wrong⟩ := next_finish state
    rw [List.nil_append, read] at accepted
    cases accepts : state.accepts <;> simp [wrong, accepts] at accepted
    subst accepted
    exact .nothing before
  | cons t rest ih =>
    obtain ⟨lexeme, place⟩ := t
    obtain ⟨here, behind⟩ := List.forall_mem_cons.mp inner
    obtain ⟨_, decimals⟩ := List.forall_mem_cons.mp decimal
    rw [List.cons_append] at accepted
    cases step : state.next lexeme with
    | error fault => simp [read_fault here step] at accepted
    | ok next =>
      rw [read_step here step] at accepted
      cases later : read next (rest ++ [⟨.finish, position⟩]) with
      | error e => simp [later, Except.map] at accepted
      | ok more =>
        have follows' := follows_step follows step
        have denotes : Denotes (before ++ [⟨lexeme, place⟩]) rest more :=
          ih behind decimals (by simpa using follows') later
        rw [later] at accepted
        cases accepted
        cases lexeme with
        | symbol text =>
          obtain ⟨divides, keeps⟩ := sign_of_follows follows step
          have power : Written rest (leadingExponent (rest ++ [⟨.finish, position⟩])) :=
            written_leadingExponent decimals
          refine .symbol power ?_ ?_ denotes
          · intro divisor
            rw [divides divisor, Int.neg_one_mul]
          · intro factor
            rw [keeps factor, Int.one_mul]
        | _ => exact .other (by simp [Lexeme.kind]) denotes

end Parser

/-- The parser reads exactly the sentences of the grammar, gives their terms with the exponents
they have, and otherwise stops at the first token with which no sentence goes on. -/
theorem parseTokens_decides_grammar (tokens : List Token) (position : Nat)
    (inner : ∀ t ∈ tokens, t.lexeme ≠ .finish)
    (decimal : ∀ t ∈ tokens, t.HasDecimalDigit) :
    ((∃ terms, parseTokens (tokens ++ [⟨.finish, position⟩]) = .ok terms) ↔
      tokens.map Token.kind ∈ sentences) ∧
    (∀ terms, parseTokens (tokens ++ [⟨.finish, position⟩]) = .ok terms →
      Denotes [] tokens terms) ∧
    ∀ e, parseTokens (tokens ++ [⟨.finish, position⟩]) = .error e →
      ∃ t, FirstMisfit sentences (tokens ++ [⟨.finish, position⟩]) t ∧ e.position = t.position := by
  refine ⟨Parser.read_accepts_iff inner, ?_, ?_⟩
  · intro terms accepted
    have start : Parser.State.start.Follows (([] : List Token).map Token.kind) := rfl
    exact Parser.denotes_of_read inner decimal start accepted
  · intro e failed
    exact Parser.read_fault_at_misfit inner failed

/-- The tokens of `m2/(kg*s)` without the end mark. -/
def quotientTokens : List Token := [
  ⟨.symbol "m", 0⟩, ⟨.exponent false '2', 1⟩, ⟨.slash, 2⟩, ⟨.opening, 3⟩, ⟨.symbol "kg", 4⟩,
  ⟨.times '*', 6⟩, ⟨.symbol "s", 7⟩, ⟨.closing, 8⟩]

/-- A product over a group is a sentence, and both terms of the group divide. -/
theorem quotientTokens_decided :
    (∀ t ∈ quotientTokens, t.lexeme ≠ .finish) ∧
    (∀ t ∈ quotientTokens, t.HasDecimalDigit) ∧
    quotientTokens.map Token.kind ∈ sentences ∧
    Denotes [] quotientTokens [⟨"m", 2, 0⟩, ⟨"kg", -1, 4⟩, ⟨"s", -1, 7⟩] := by
  have inner : ∀ t ∈ quotientTokens, t.lexeme ≠ .finish := by decide
  have decimal : ∀ t ∈ quotientTokens, t.HasDecimalDigit := by
    simp only [quotientTokens, Token.HasDecimalDigit, List.forall_mem_cons]
    simp
    exact ⟨2, by decide⟩
  have parsed : parseTokens (quotientTokens ++ [⟨.finish, 9⟩]) =
      .ok [⟨"m", 2, 0⟩, ⟨"kg", -1, 4⟩, ⟨"s", -1, 7⟩] := by decide
  obtain ⟨accepts, denotes, -⟩ := parseTokens_decides_grammar quotientTokens 9 inner decimal
  exact ⟨inner, decimal, accepts.mp ⟨_, parsed⟩, denotes _ parsed⟩

end Metrology
