import Metrology.Proofs.ExactNumber
import Metrology.Proofs.Unit.Resolving

/-!
# Parsing undoes formatting

A unit made from parsed ones is read back from either of its symbols, the terms above the slash
first. So its symbol identifies it up to that order.
-/
namespace Metrology

variable {K : Type}

namespace Compound

variable {P : NamedUnit K → Option (Prefix K) → Prop} {c d e : Compound K}

/-- The terms of two units, side by side. -/
theorem Sound.append (sound : c.Sound P) (sound' : d.Sound P) :
    ∀ t ∈ c.terms ++ d.terms, t.Sound P ∧ t.isScalar = false := fun t mem =>
  (List.mem_append.mp mem).elim (sound.terms t) (sound'.terms t)

theorem Sound.mul (sound : c.Sound P) (sound' : d.Sound P) (made : c.mul d = .ok e) : e.Sound P :=
  sound_of_ofTerms (fun t mem => (sound.append sound' t mem).1) made

/-- A unit whose terms are made from the terms of a sound one is sound. -/
theorem Sound.mapTerms (sound : c.Sound P) {f : Term K → Except Error (Term K)}
    (keeps : ∀ t u, t.Sound P → f t = .ok u → u.Sound P)
    (made : (do ofTerms (← c.terms.mapM f)) = .ok d) : d.Sound P := by
  obtain ⟨ts, all, product⟩ := bind_eq_ok.mp made
  refine sound_of_ofTerms (fun t mem => ?_) product
  obtain ⟨u, inside, same⟩ := exists_of_mem_mapM all mem
  exact keeps u t (sound.terms u inside).1 same

theorem Sound.inv (sound : c.Sound P) (made : c.inv = .ok d) : d.Sound P :=
  sound.mapTerms (fun _ _ base made => Term.sound_of_make base.base made) made

theorem Sound.div (sound : c.Sound P) (sound' : d.Sound P) (made : c.div d = .ok e) :
    e.Sound P := by
  obtain ⟨i, inverted, product⟩ := bind_eq_ok.mp made
  exact sound.mul (sound'.inv inverted) product

theorem sound_one : (one : Compound K).Sound P := ⟨fun _ mem => absurd mem List.not_mem_nil, .nil⟩

theorem Sound.pow (sound : c.Sound P) {n : Int} (made : c.pow n = .ok d) : d.Sound P := by
  rcases sound.pow_cases made with ⟨_, rfl⟩ | ⟨_, _, terms, product⟩
  · exact sound_one
  · exact sound_of_ofTerms (fun t mem => (terms t mem).1) product

theorem Sound.withoutPrefixes {lex : Lexicon K} (sound : c.Sound lex.Names)
    (made : c.withoutPrefixes = .ok d) : d.Sound lex.Names :=
  sound.mapTerms (fun _ _ base made => Term.sound_of_make base.base.withoutPrefix made) made

/-- The order of the terms does not show in the symbol. -/
theorem write_reordered (script : Script) (c : Compound K) :
    c.reordered.write script = c.write script := by
  have above : c.reordered.terms.filter (fun t => 0 < t.exponent)
      = c.terms.filter fun t => 0 < t.exponent := by
    simpa [reordered, Compound.above, Compound.below] using fun t _ below => Int.le_of_lt below
  have below : c.reordered.terms.filter (fun t => t.exponent < 0)
      = c.terms.filter fun t => t.exponent < 0 := by
    simpa [reordered, Compound.above, Compound.below] using fun t _ above => Int.le_of_lt above
  unfold write
  rw [above, below]

end Compound

namespace Lexicon

/-- The scalar is read as the product of no terms. -/
theorem parse_empty (lex : Lexicon K) : lex.parse "" = .ok .one := rfl

variable [Scalar K] {lex : Lexicon K}

/-- The units that come from parsed texts by calculation. -/
inductive Obtainable (lex : Lexicon K) : Compound K → Prop
  | parsed {text : String} {c : Compound K} (made : lex.parse text = .ok c) : Obtainable lex c
  | mul {c d e : Compound K} (left : Obtainable lex c) (right : Obtainable lex d)
      (made : c.mul d = .ok e) : Obtainable lex e
  | div {c d e : Compound K} (left : Obtainable lex c) (right : Obtainable lex d)
      (made : c.div d = .ok e) : Obtainable lex e
  | inv {c d : Compound K} (base : Obtainable lex c) (made : c.inv = .ok d) : Obtainable lex d
  | pow {c d : Compound K} (n : Int) (base : Obtainable lex c) (made : c.pow n = .ok d) :
      Obtainable lex d
  | withoutPrefixes {c d : Compound K} (base : Obtainable lex c)
      (made : c.withoutPrefixes = .ok d) : Obtainable lex d

omit [Scalar K] in
/-- A text that is read consists of units and prefixes that its symbols stand for. -/
theorem sound_of_parse_of_resolve {P : NamedUnit K → Option (Prefix K) → Prop}
    (resolves : ∀ {s r}, lex.resolve s = .ok r → P r.1 r.2) {text : String} {c : Compound K}
    (made : lex.parse text = .ok c) : c.Sound P := by
  obtain ⟨parsed, _, rest⟩ := bind_eq_ok.mp made
  obtain ⟨ts, all, product⟩ := bind_eq_ok.mp rest
  refine Compound.sound_of_ofTerms (fun t mem => ?_) product
  obtain ⟨p, _, same⟩ := exists_of_mem_mapM all mem
  obtain ⟨_, resolved, made⟩ := bind_eq_ok.mp same
  exact Term.sound_of_make (resolves resolved) made

omit [Scalar K] in
/-- A text that is read consists of units in the lexicon. -/
theorem Indexed.sound_of_parse (indexed : lex.Indexed) {text : String} {c : Compound K}
    (made : lex.parse text = .ok c) : c.Sound lex.Names :=
  sound_of_parse_of_resolve (fun resolved => indexed.names_of_resolve resolved) made

theorem Tabled.sound_of_parse (tabled : lex.Tabled) {text : String} {c : Compound K}
    (made : lex.parse text = .ok c) : c.Sound lex.Names :=
  tabled.indexed.sound_of_parse made

/-- Calculation leads to no units outside the lexicon. -/
theorem Tabled.sound_of_obtainable (tabled : lex.Tabled) {c : Compound K}
    (obtained : lex.Obtainable c) : c.Sound lex.Names := by
  induction obtained with
  | parsed made => exact tabled.sound_of_parse made
  | mul _ _ made left right => exact left.mul right made
  | div _ _ made left right => exact left.div right made
  | inv _ made base => exact base.inv made
  | pow n _ made base => exact base.pow made
  | withoutPrefixes _ made base => exact base.withoutPrefixes made

omit [Scalar K] in
/-- A unit is read from its symbol, the terms above the slash first, if each term is read from its
own. -/
theorem parse_write_of_resolve (script : Script) {P : NamedUnit K → Option (Prefix K) → Prop}
    {c : Compound K} (sound : c.Sound P) (parts : ∀ t ∈ c.terms, IsPart (t.content script))
    (resolves : ∀ t ∈ c.terms, lex.resolve (t.spelling script) = .ok (t.unit, t.scaling)) :
    lex.parse (c.write script) = .ok c.reordered := by
  obtain ⟨parsed, read, contents⟩ := c.parseExpression_write script parts
  have terms : parsed.mapM lex.term = .ok c.reordered.terms := by
    refine mapM_of_map_eq contents fun p t mem same => ?_
    obtain ⟨symbol, exponent⟩ := Prod.mk.inj same
    rw [term, symbol, resolves t ((Compound.mem_reordered sound).mp mem), exponent]
    exact (sound.reordered.terms t mem).1.make_self
  rw [parse, read]
  show (do Compound.ofTerms (← parsed.mapM lex.term)) = _
  rw [terms]
  exact sound.reordered.ofTerms_terms

/-- The symbols of a sound unit are read as its terms, those above the slash first. -/
theorem Tabled.parse_write (tabled : lex.Tabled) (script : Script) {c : Compound K}
    (sound : c.Sound lex.Names) : lex.parse (c.write script) = .ok c.reordered :=
  parse_write_of_resolve script sound
    (fun t mem => tabled.isPart_content script (sound.terms t mem).1 (sound.terms t mem).2)
    fun t mem => tabled.resolve_spelling script (sound.terms t mem).1 (sound.terms t mem).2

/-- The ASCII symbol of a registered unit is read as that unit. -/
theorem Tabled.parse_asciiSymbol (tabled : lex.Tabled) {u : NamedUnit K}
    (found : lex.find? u.asciiSymbol = some u) (visible : u.isScalar = false) :
    lex.parse u.asciiSymbol = .ok ⟨[⟨u, none, 1⟩]⟩ := by
  have sound : (⟨[⟨u, none, 1⟩]⟩ : Compound K).Sound lex.Names := by
    refine ⟨fun t mem => ?_, List.pairwise_singleton _ _⟩
    obtain rfl := List.mem_singleton.mp mem
    exact ⟨⟨⟨found, nofun⟩, by simp, by simp [maxExponent], nofun⟩, visible⟩
  have written : (⟨[⟨u, none, 1⟩]⟩ : Compound K).write .ascii = u.asciiSymbol := by
    simp [Compound.write, Term.write, Term.writeWith, Term.scalingSymbol]
  have read := tabled.parse_write .ascii sound
  rw [written] at read
  exact read

end Lexicon

namespace Session

variable [Scalar K]

/-- **Parsing undoes formatting.** In a session made from any systems, both symbols of any unit that
comes from parsed texts by calculation are read as that unit, its terms with positive exponents
first and those with negative ones behind them, each in their order; that unit has the same symbols.
Two such units have the same ASCII symbol only if they agree up to that order of their terms. -/
theorem parsing_undoes_formatting {systems : List MeasurementSystem} {s : Session K}
    (made : ofSystems systems = .ok s) {u : Compound K} (obtained : s.lexicon.Obtainable u) :
    (∀ script, s.lexicon.parse (u.write script) = .ok u.reordered ∧
      u.reordered.write script = u.write script) ∧
    ∀ v, s.lexicon.Obtainable v → (u.write .ascii = v.write .ascii ↔ u.reordered = v.reordered) := by
  have tabled := tabled_ofSystems made
  have sound := tabled.sound_of_obtainable obtained
  refine ⟨fun script => ⟨tabled.parse_write script sound, u.write_reordered script⟩,
    fun v obtained' => ⟨fun same => ?_, fun same => ?_⟩⟩
  · have read := tabled.parse_write .ascii (tabled.sound_of_obtainable obtained')
    rw [← same, tabled.parse_write .ascii sound] at read
    exact Except.ok.inj read
  · rw [← u.write_reordered, same, v.write_reordered]

/-- How the text of a unit is written in a session with the units of typography. -/
def typeset (text : String) : Except Error String := do
  let s : Session ℚ ← ofSystems [.typography]
  let u ← s.lexicon.parse text
  return u.write .ascii

theorem typeset_quotient : typeset "p*P-2*px" = .ok "p*px/P2" := by decide +kernel

theorem typography_read_back :
    ∃ s : Session ℚ, ofSystems [.typography] = .ok s ∧ ∃ u, s.lexicon.parse "p*P-2*px" = .ok u ∧
      s.lexicon.parse "p*px/P2" = .ok u.reordered ∧ u.reordered.write .ascii = "p*px/P2" := by
  obtain ⟨s, made, rest⟩ := bind_eq_ok.mp typeset_quotient
  obtain ⟨u, read, rest⟩ := bind_eq_ok.mp rest
  have written : u.write .ascii = "p*px/P2" := Except.ok.inj rest
  have back := (parsing_undoes_formatting made (.parsed read)).1 .ascii
  rw [written] at back
  exact ⟨s, made, u, read, back⟩

end Session

end Metrology
