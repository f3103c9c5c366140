import Metrology.Proofs.Expression.Reading
import Metrology.Proofs.Expression.Scanning
import Metrology.Unit.Compound

/-!
# Reading what was written

The symbol of a compound unit is read as the symbols and exponents of its terms, those above the
slash first. It needs no more than that each of its symbols can be read by itself.
-/
namespace Metrology

open Scanner

/-! ### Terms -/

/-- How an exponent is written; 1 is left out. -/
def exponentText (script : Script) (n : Int) : String :=
  if n = 1 then ""
  else match script with
    | .ascii => toString n
    | .unicode => Text.toSuperscript (toString n)

theorem isExponent_exponentText (script : Script) {n : Int} (nonzero : n ≠ 0) (other : n ≠ 1)
    (range : n.natAbs ≤ 9) :
    IsExponent (exponentText script n).toList (decide (n < 0)) (Nat.digitChar n.natAbs) := by
  have low : -9 ≤ n := by omega
  have high : n ≤ 9 := by omega
  cases script with
  | ascii =>
    interval_cases n <;> first
      | contradiction
      | exact isExponent_minus (by decide +kernel)
      | exact isExponent_digit (by decide +kernel) (by decide +kernel)
  | unicode =>
    interval_cases n <;> first
      | contradiction
      | exact isExponent_raisedMinus (by decide +kernel)
      | exact isExponent_raised (by decide +kernel) (by decide +kernel) (by decide +kernel)

/-- A symbol and its exponent as they are written. -/
def partText (script : Script) (part : String × Int) : String :=
  part.1 ++ exponentText script part.2

/-- A symbol that can be read, with an exponent of one digit. -/
def IsPart (part : String × Int) : Prop :=
  IsSymbol part.1.toList ∧ part.2 ≠ 0 ∧ part.2.natAbs ≤ 9

theorem scans_part (script : Script) {part : String × Int} {cs : List Char}
    {lexemes : List Lexeme} (legible : IsPart part) (ends : EndsTerm cs)
    (more : Scans cs lexemes) :
    Scans ((partText script part).toList ++ cs) (termLexemes part ++ lexemes) := by
  obtain ⟨symbol, nonzero, range⟩ := legible
  rw [partText, String.toList_append, List.append_assoc]
  by_cases one : part.2 = 1
  · have := scans_symbol symbol ends more
    simpa [termLexemes, one, exponentText] using this
  · have := scans_exponent symbol (isExponent_exponentText script nonzero one range) ends more
    simpa [termLexemes, one] using this

/-! ### Products -/

/-- The sign between the factors of a product. -/
def timesSign : Script → Char
  | .ascii => '*'
  | .unicode => '·'

def productText (script : Script) (parts : List (String × Int)) : String :=
  (Compound.productSign script).intercalate (parts.map (partText script))

theorem toList_productText (script : Script) (parts : List (String × Int)) :
    (productText script parts).toList
      = [timesSign script].intercalate (parts.map fun p => (partText script p).toList) := by
  have sign : (Compound.productSign script).toList = [timesSign script] := by cases script <;> rfl
  rw [productText, String.toList_intercalate, sign, List.map_map]
  rfl

theorem scans_product (script : Script) {part : String × Int} {parts : List (String × Int)}
    {cs : List Char} {lexemes : List Lexeme} (legible : ∀ p ∈ part :: parts, IsPart p)
    (ends : EndsTerm cs) (more : Scans cs lexemes) :
    Scans ((productText script (part :: parts)).toList ++ cs)
      (productLexemes (timesSign script) (part :: parts) ++ lexemes) := by
  induction parts generalizing part with
  | nil =>
    have := scans_part script (legible part (by simp)) ends more
    simpa [toList_productText, productLexemes] using this
  | cons other parts ih =>
    have rest := ih fun p mem => legible p (List.mem_cons_of_mem _ mem)
    have sign : operator? (timesSign script) = some (.times (timesSign script)) := by
      cases script <;> rfl
    have visible : Text.isBlank (timesSign script) = false := by cases script <;> decide
    have stop : timesSign script ∈ operators := by cases script <;> decide
    have := scans_part script (legible part (by simp)) (endsTerm_cons stop)
      (scans_operator _ sign visible rest)
    rw [toList_productText] at this ⊢
    rw [productLexemes_cons_cons]
    simpa [List.intercalate_cons_cons] using this

/-! ### Compound units -/

namespace Term

variable {K : Type}

/-- The symbols of the prefix and the unit. -/
def spelling (script : Script) (t : Term K) : String :=
  match script with
  | .ascii => t.scalingSymbol ++ t.unit.asciiSymbol
  | .unicode => (t.scaling.map (·.unicodeSymbol)).getD "" ++ t.unit.unicodeSymbol

theorem writeWith_eq (script : Script) (t : Term K) (n : Int) :
    t.writeWith script n = partText script (t.spelling script, n) := by
  cases script <;> rfl

/-- What a term says: its symbol and its exponent. -/
def content (script : Script) (t : Term K) : String × Int := (t.spelling script, t.exponent)

end Term

namespace Compound

variable {K : Type}

/-- The terms above the slash. -/
def above (c : Compound K) : List (Term K) := c.terms.filter fun t => 0 < t.exponent

/-- The terms below the slash. -/
def below (c : Compound K) : List (Term K) := c.terms.filter fun t => t.exponent < 0

/-- The same product with the terms above the slash first. -/
def reordered (c : Compound K) : Compound K := ⟨c.above ++ c.below⟩

end Compound

/-! ### Expressions -/

/-- A text whose lexemes are known to scan and to parse is read. -/
theorem parseExpression_of_scans {text : String} {lexemes : List Lexeme}
    {parts : List (String × Int)} (scans : Scans text.toList lexemes)
    (parses : Parser.Parses .start lexemes parts) :
    ∃ parsed, parseExpression text = .ok parsed ∧ parsed.map (·.content) = parts := by
  obtain ⟨tokens, scanned, same⟩ := scans text.toList.length 0 (Nat.le_refl _)
  obtain ⟨parsed, isRead, content⟩ := parses tokens same
  refine ⟨parsed, ?_, content⟩
  have tokenized : tokenize text = .ok tokens := by
    simp only [tokenize]
    rw [scanned]
    rfl
  rw [parseExpression, tokenized]
  show (parseTokens tokens).mapError _ = _
  rw [parseTokens, isRead]
  rfl

/-- A product alone is read as its parts. -/
theorem parseExpression_productText (script : Script) {parts : List (String × Int)}
    (legible : ∀ p ∈ parts, IsPart p) :
    ∃ parsed, parseExpression (productText script parts) = .ok parsed ∧
      parsed.map (·.content) = parts := by
  cases parts with
  | nil =>
    have empty : (productText script []).toList = [] := by simp [toList_productText]
    exact parseExpression_of_scans (empty ▸ scans_nil) (Parser.parses_finish rfl)
  | cons part parts =>
    have scans := scans_product script legible endsTerm_nil scans_nil
    rw [List.append_nil] at scans
    exact parseExpression_of_scans scans (Parser.parses_alone fun p mem => (legible p mem).2.2)

/-- A product over a single term is read as its parts, the last one with its exponent negated. -/
theorem parseExpression_quotient (script : Script) {part divisor : String × Int}
    {parts : List (String × Int)} (legible : ∀ p ∈ part :: parts, IsPart p)
    (under : IsPart divisor) :
    ∃ parsed,
      parseExpression (productText script (part :: parts) ++ "/" ++ productText script [divisor])
        = .ok parsed ∧
      parsed.map (·.content) = part :: parts ++ [(divisor.1, -divisor.2)] := by
  have single : (productText script [divisor]).toList = (partText script divisor).toList := by
    simp [toList_productText]
  have bottom := scans_part script under endsTerm_nil scans_nil
  have scans := scans_product script legible (endsTerm_cons (by decide))
    (scans_operator '/' rfl (by decide) bottom)
  exact parseExpression_of_scans (by simpa [single] using scans)
    (Parser.parses_quotient (fun p mem => (legible p mem).2.2) under.2.2)

/-- A product over a product in parentheses is read as its parts, those of the group with their
exponents negated. -/
theorem parseExpression_group (script : Script) {part divisor : String × Int}
    {parts divisors : List (String × Int)} (legible : ∀ p ∈ part :: parts, IsPart p)
    (under : ∀ p ∈ divisor :: divisors, IsPart p) :
    ∃ parsed,
      parseExpression (productText script (part :: parts) ++ "/("
        ++ productText script (divisor :: divisors) ++ ")") = .ok parsed ∧
      parsed.map (·.content)
        = part :: parts ++ (divisor :: divisors).map fun p => (p.1, -p.2) := by
  have bottom := scans_product script under (endsTerm_cons (by decide))
    (scans_operator ')' rfl (by decide) scans_nil)
  have scans := scans_product script legible (endsTerm_cons (by decide))
    (scans_operator '/' rfl (by decide) (scans_operator '(' rfl (by decide) bottom))
  exact parseExpression_of_scans (by simpa using scans)
    (Parser.parses_groupQuotient (fun p mem => (legible p mem).2.2)
      fun p mem => (under p mem).2.2)

/-! ### Symbols of compound units -/

namespace Compound

variable {K : Type}

theorem productText_write (script : Script) (ts : List (Term K)) :
    (productSign script).intercalate (ts.map (·.write script))
      = productText script (ts.map (·.content script)) := by
  rw [productText, List.map_map]
  congr 1
  exact List.map_congr_left fun t _ => t.writeWith_eq script t.exponent

theorem productText_writeWith (script : Script) (ts : List (Term K)) :
    (productSign script).intercalate (ts.map fun t => t.writeWith script (-t.exponent))
      = productText script (ts.map fun t => (t.spelling script, -t.exponent)) := by
  rw [productText, List.map_map]
  congr 1
  exact List.map_congr_left fun t _ => t.writeWith_eq script (-t.exponent)

theorem write_of_above_eq_nil (script : Script) {c : Compound K} (top : c.above = []) :
    c.write script = productText script (c.below.map (·.content script)) := by
  rw [above] at top
  simp only [write, top, List.isEmpty_nil, if_true, productText_write]
  rfl

theorem write_of_below_eq_nil (script : Script) {c : Compound K} (top : c.above ≠ [])
    (bottom : c.below = []) :
    c.write script = productText script (c.above.map (·.content script)) := by
  rw [above] at top
  rw [below] at bottom
  simp only [write, bottom, List.isEmpty_iff, if_neg top, productText_write]
  rfl

theorem write_of_below_eq_single (script : Script) {c : Compound K} {t : Term K}
    (top : c.above ≠ []) (bottom : c.below = [t]) :
    c.write script = productText script (c.above.map (·.content script)) ++ "/"
      ++ productText script [(t.spelling script, -t.exponent)] := by
  rw [above] at top
  rw [below] at bottom
  simp only [write, bottom, List.isEmpty_iff, if_neg top, productText_write,
    productText_writeWith]
  rfl

theorem write_of_below_eq_group (script : Script) {c : Compound K} {t u : Term K}
    {ts : List (Term K)} (top : c.above ≠ []) (bottom : c.below = t :: u :: ts) :
    c.write script = productText script (c.above.map (·.content script)) ++ "/("
      ++ productText script ((t :: u :: ts).map fun t => (t.spelling script, -t.exponent))
      ++ ")" := by
  rw [above] at top
  rw [below] at bottom
  simp only [write, bottom, List.isEmpty_iff, if_neg top, productText_write,
    productText_writeWith]
  rfl

/-- The symbol of a compound unit is read as the symbols and exponents of its terms, those above
the slash first. -/
theorem parseExpression_write (script : Script) {c : Compound K}
    (legible : ∀ t ∈ c.terms, IsPart (t.content script)) :
    ∃ parsed, parseExpression (c.write script) = .ok parsed ∧
      parsed.map (·.content) = c.reordered.terms.map (·.content script) := by
  have top : ∀ p ∈ c.above.map (·.content script), IsPart p := by
    intro p mem
    obtain ⟨t, inside, rfl⟩ := List.mem_map.mp mem
    exact legible t (List.mem_filter.mp inside).1
  have bottom : ∀ p ∈ c.below.map (·.content script), IsPart p := by
    intro p mem
    obtain ⟨t, inside, rfl⟩ := List.mem_map.mp mem
    exact legible t (List.mem_filter.mp inside).1
  have negated : ∀ t ∈ c.below, IsPart (t.spelling script, -t.exponent) := by
    intro t inside
    obtain ⟨symbol, nonzero, range⟩ := legible t (List.mem_filter.mp inside).1
    exact ⟨symbol, by simpa [Term.content] using nonzero, by simpa [Term.content] using range⟩
  rw [reordered, List.map_append]
  cases above : c.above with
  | nil =>
    rw [write_of_above_eq_nil script above]
    exact parseExpression_productText script bottom
  | cons t ts =>
    have some : c.above ≠ [] := by simp [above]
    rw [above, List.map_cons] at top
    match below : c.below with
    | [] =>
      rw [write_of_below_eq_nil script some below, above, List.map_nil, List.append_nil]
      exact parseExpression_productText script top
    | [u] =>
      rw [write_of_below_eq_single script some below, above]
      have read := parseExpression_quotient script top (negated u (by simp [below]))
      simpa [Term.content] using read
    | u :: v :: us =>
      rw [write_of_below_eq_group script some below, above]
      have under : ∀ p ∈ (u :: v :: us).map fun t => (t.spelling script, -t.exponent), IsPart p := by
        intro p mem
        obtain ⟨w, inside, rfl⟩ := List.mem_map.mp mem
        exact negated w (below ▸ inside)
      have read := parseExpression_group script top under
      simpa [Term.content, Function.comp_def] using read

end Compound

end Metrology
