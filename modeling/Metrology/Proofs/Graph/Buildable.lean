import Metrology.Proofs.Graph.Rebuilding
import Metrology.Proofs.Unit.Small

/-!
# Tabled edges can be built

The tables name well-formed units with small exponents. So whichever systems are loaded, a row of
the tables either names a unit that is not registered and is left out, or gives an edge; building
the edges of a dimension never fails.
-/
namespace Metrology

namespace Catalogue

/-- The exponents of a well-formed text together. -/
def powers (text : String) : Nat :=
  match parseExpression text with
  | .ok parts => (parts.map (·.exponent.natAbs)).sum
  | .error _ => 0

/-- The text is well-formed, and its exponents are small together. -/
def isSmall (text : String) : Bool :=
  match parseExpression text with
  | .ok parts => (parts.map (·.exponent.natAbs)).sum ≤ maxExponent
  | .error _ => false

theorem isSmall_of_conversion :
    ∀ q ∈ quantities, ∀ c ∈ q.conversions, ∀ text ∈ [c.src, c.dest], isSmall text = true := by
  decide +kernel

theorem digits_of_conversion :
    ∀ q ∈ quantities, ∀ c ∈ q.conversions, c.factor.digits ≠ 0 := by
  decide +kernel

theorem isSmall_of_expansion : ∀ r ∈ units, ∀ e ∈ r.2.expansion, isSmall e = true := by
  decide +kernel

end Catalogue

variable {K : Type}

/-! ### What can be read -/

section Reading

variable {lex : Lexicon K}

/-- What is wrong with a term is a matter of meaning, not of form. -/
theorem kind_of_make {u : NamedUnit K} {scaling : Option (Prefix K)} {n : Int} {e : Error}
    (failed : Term.make u scaling n = .error e) : e.kind = .meaning := by
  unfold Term.make at failed
  split at failed
  next =>
    obtain rfl := Except.error.inj failed
    rfl
  next =>
    split at failed
    next =>
      obtain rfl := Except.error.inj failed
      rfl
    next =>
      cases scaling with
      | none => cases failed
      | some p =>
        dsimp only at failed
        split at failed
        next => cases failed
        next =>
          obtain rfl := Except.error.inj failed
          rfl

namespace Lexicon

theorem kind_of_term {p : ParsedTerm} {e : Error} (failed : lex.term p = .error e) :
    e.kind = .meaning := by
  rw [term] at failed
  cases resolved : lex.resolve p.symbol with
  | ok named =>
    rw [resolved] at failed
    exact kind_of_make failed
  | error e' =>
    rw [resolved] at failed
    obtain rfl : e' = e := Except.error.inj failed
    unfold resolve at resolved
    split at resolved
    next => cases resolved
    next =>
      dsimp only at resolved
      split at resolved
      next => cases resolved
      next =>
        split at resolved
        next =>
          obtain rfl := Except.error.inj resolved
          rfl
        next =>
          obtain rfl := Except.error.inj resolved
          rfl

end Lexicon

/-- What is read of the terms of a text has their exponents. -/
theorem Lexicon.span_of_terms {parts : List ParsedTerm} {ts : List (Term K)}
    (terms : parts.mapM lex.term = .ok ts) :
    Compound.span ts = (parts.map (·.exponent.natAbs)).sum := by
  have aligned : List.Forall₂ (fun t p => t.exponent.natAbs = p.exponent.natAbs) ts parts := by
    refine ((mapM_eq_ok.mp terms).imp fun p t given => ?_).flip
    obtain ⟨⟨u, scaling⟩, _, made⟩ := bind_eq_ok.mp given
    obtain ⟨rfl, _⟩ := Term.make_eq_ok.mp made
    rfl
  refine congrArg List.sum (List.forall₂_eq_eq_eq ▸ ?_)
  exact List.forall₂_map_left_iff.mpr (List.forall₂_map_right_iff.mpr aligned)

/-- What a text means has no larger exponents than are written. -/
theorem Lexicon.span_of_parse {text : String} {u : Compound K} (read : lex.parse text = .ok u) :
    Compound.span u.terms ≤ Catalogue.powers text := by
  obtain ⟨parts, parsed, read⟩ := bind_eq_ok.mp read
  obtain ⟨ts, terms, product⟩ := bind_eq_ok.mp read
  rw [Catalogue.powers, parsed]
  exact (Compound.span_of_ofTerms product).trans_eq (span_of_terms terms)

/-- The text is read as a small unit, or it has no meaning. -/
def Lexicon.ReadsSmall (lex : Lexicon K) (text : String) : Prop :=
  (∃ u, lex.parse text = .ok u ∧ Compound.span u.terms ≤ maxExponent) ∨
    ∃ e, lex.parse text = .error e ∧ e.kind = .meaning

theorem Lexicon.Indexed.readsSmall (indexed : lex.Indexed) {text : String}
    (small : Catalogue.isSmall text = true) : lex.ReadsSmall text := by
  unfold Catalogue.isSmall at small
  split at small
  next parts parsed =>
    have within : (parts.map (·.exponent.natAbs)).sum ≤ maxExponent := by simpa using small
    have whole : lex.parse text = parts.mapM lex.term >>= Compound.ofTerms := by
      rw [parse, parsed]
      rfl
    cases terms : parts.mapM lex.term with
    | error e =>
      obtain ⟨p, _, failed⟩ := exists_of_mapM_error terms
      refine .inr ⟨e, ?_, Lexicon.kind_of_term failed⟩
      rw [whole, terms]
      rfl
    | ok ts =>
      have each : ∀ t ∈ ts, t.Sound lex.Names := by
        intro t mem
        obtain ⟨p, _, given⟩ := exists_of_mem_mapM terms mem
        obtain ⟨⟨u, scaling⟩, resolved, made⟩ := bind_eq_ok.mp given
        exact Term.sound_of_make (indexed.names_of_resolve resolved) made
      have same := Lexicon.span_of_terms terms
      obtain ⟨c, product, less⟩ := Compound.ofTerms_isOk each (same ▸ within)
      refine .inl ⟨c, ?_, by omega⟩
      rw [whole, terms]
      exact product
  next => cases small

theorem Lexicon.Tabled.exists_parse_asciiSymbol [Scalar K] (tabled : lex.Tabled) {u : NamedUnit K}
    (found : lex.find? u.asciiSymbol = some u) :
    ∃ c, lex.parse u.asciiSymbol = .ok c ∧ Compound.span c.terms ≤ maxExponent := by
  cases scalar : u.isScalar with
  | false =>
    exact ⟨_, tabled.parse_asciiSymbol found scalar, by simp [Compound.span, maxExponent]⟩
  | true =>
    have empty : u.asciiSymbol = "" := by simpa [NamedUnit.isScalar] using scalar
    exact ⟨.one, by rw [empty, Lexicon.parse_empty], by simp [Compound.span, Compound.one]⟩

/-- The ends of a row are looked up, and what is read of them is small. -/
theorem EdgeStore.parseEnds_isOk {src dest : String} (first : lex.ReadsSmall src)
    (second : lex.ReadsSmall dest) :
    ∃ ends, parseEnds lex src dest = .ok ends ∧ ∀ u v, ends = some (u, v) →
      Compound.span u.terms ≤ maxExponent ∧ Compound.span v.terms ≤ maxExponent := by
  rcases first with ⟨u, read, small⟩ | ⟨e, unread, meaning⟩
  · rcases second with ⟨v, read', small'⟩ | ⟨e, unread, meaning⟩
    · refine ⟨some (u, v), ?_, fun _ _ same => ?_⟩
      · rw [parseEnds, read, read']
        rfl
      · obtain ⟨rfl, rfl⟩ := Prod.mk.inj (Option.some.inj same)
        exact ⟨small, small'⟩
    · refine ⟨none, ?_, fun _ _ same => by cases same⟩
      rw [parseEnds, read, unread]
      exact if_pos meaning
  · refine ⟨none, ?_, fun _ _ same => by cases same⟩
    rw [parseEnds, unread]
    exact if_pos meaning

end Reading

/-! ### Building -/

namespace EdgeStore

variable [Scalar K] {good : K → Prop} {fault : Error → Prop} {lex : Lexicon K} {d : Dimension}

/-- An edge that is kept under its ends, both of which can be read, and whose factor is good. -/
structure Spelled (lex : Lexicon K) (good : K → Prop) (row : EdgeKey × Conversion K) : Prop where
  key : row.1 = (row.2.src, row.2.dest)
  src : ∃ u, lex.parse row.2.src = .ok u
  dest : ∃ v, lex.parse row.2.dest = .ok v
  factor : good row.2.factor.value

/-- What is tabled for a dimension or expands its units is small, and its factor is good. -/
theorem readsSmall_of_rows (within : Scalar.Within good fault) (tabled : lex.Tabled)
    {row : EdgeKey × Factor K} (mem : row ∈ rows lex d) :
    lex.ReadsSmall row.1.1 ∧ lex.ReadsSmall row.1.2 ∧ good row.2.value := by
  rcases List.mem_append.mp mem with mem | mem
  · obtain ⟨c, isRow, rfl⟩ := List.mem_map.mp mem
    obtain ⟨q, isQuantity, isRow, _⟩ := Catalogue.mem_conversions isRow
    have named := Catalogue.isSmall_of_conversion q isQuantity c isRow
    exact ⟨tabled.indexed.readsSmall (named c.src (by simp)),
      tabled.indexed.readsSmall (named c.dest (by simp)),
      within.decimal _ (Catalogue.digits_of_conversion q isQuantity c isRow)⟩
  · obtain ⟨u, listed, mem⟩ := List.mem_filterMap.mp mem
    obtain ⟨e, expands, rfl⟩ := Option.map_eq_some_iff.mp mem
    obtain ⟨found, rfl⟩ := tabled.find?_of_ofDimension listed
    obtain ⟨_, r, declared⟩ := tabled.declared _ u found
    obtain ⟨_, _, _, _, expansion, multiplier, _⟩ := declared.fields
    have own : e ∈ r.2.expansion := by
      rw [← expansion, expands]
      rfl
    refine ⟨.inl (tabled.exists_parse_asciiSymbol found),
      tabled.indexed.readsSmall (Catalogue.isSmall_of_expansion r declared.1 e own), ?_⟩
    rw [Factor.value_read, multiplier]
    exact within.one

/-- Small units may be stripped of their prefixes to register a conversion between them. -/
theorem brings_unprefixed (within : Scalar.Within good fault) (tabled : lex.Tabled)
    {u v : Compound K} (sound : u.Sound lex.Names) (sound' : v.Sound lex.Names)
    (small : Compound.span u.terms ≤ maxExponent) (small' : Compound.span v.terms ≤ maxExponent)
    {f : Factor K} (own : good f.value) :
    Brings (fun c => Spelled lex good ((c.src, c.dest), c)) fault (unprefixed d u v f) := by
  have read {w : Compound K} (sound : w.Sound lex.Names) : ∃ c, lex.parse (w.write .ascii) = .ok c :=
    ⟨_, tabled.parse_write .ascii sound⟩
  unfold unprefixed
  split
  next =>
    have prefixes := tabled.good_prefixes within
    obtain ⟨x, bare⟩ := Compound.withoutPrefixes_isOk sound small
    obtain ⟨y, bare'⟩ := Compound.withoutPrefixes_isOk sound' small'
    refine .bind (Compound.brings_multiplier within prefixes sound') fun n down => ?_
    refine .bind (Compound.brings_multiplier within prefixes sound) fun m up => ?_
    have scaled : good (f.mul (.exact n)).value := Factor.good_mul within own (g := .exact n) down
    refine .bind (Factor.brings_div within scaled (g := .exact m) up) fun q quotient => ?_
    rw [bare, bare']
    exact ⟨rfl, read (sound.withoutPrefixes bare), read (sound'.withoutPrefixes bare'), quotient⟩
  next => exact ⟨rfl, read sound, read sound', own⟩

theorem brings_addRow (within : Scalar.Within good fault) (tabled : lex.Tabled)
    {row : EdgeKey × Factor K} (mem : row ∈ rows lex d) {es : Edges K}
    (start : ∀ r ∈ es.rows, Spelled lex good r) :
    Brings (fun es : Edges K => ∀ r ∈ es.rows, Spelled lex good r) fault (addRow lex d es row) := by
  obtain ⟨src, dest, own⟩ := readsSmall_of_rows within tabled mem
  obtain ⟨ends, named, small⟩ := parseEnds_isOk src dest
  rw [addRow, named]
  cases ends with
  | none => exact start
  | some ends =>
    obtain ⟨read, read'⟩ := parseEnds_eq_some named
    obtain ⟨first, second⟩ := small _ _ rfl
    exact (brings_unprefixed within tabled (tabled.sound_of_parse read)
      (tabled.sound_of_parse read') first second own).bind fun c spelled => forall_put spelled start

/-- Whichever tabled units are registered, the edges of every dimension can be built from the tables
and the expansions, but for faults of numbers. -/
theorem brings_current (within : Scalar.Within good fault) (tabled : lex.Tabled) (d : Dimension) :
    Brings (fun es : Edges K => ∀ r ∈ es.rows, Spelled lex good r) fault (current lex .empty d) := by
  rw [current_eq, if_neg (by simp [empty])]
  have known : Brings (fun es : Edges K => ∀ r ∈ es.rows, Spelled lex good r) fault
      ((rows lex d).foldlM (addRow lex d) .empty) :=
    .foldlM (fun es row mem start => brings_addRow within tabled mem start)
      fun r mem => absurd mem List.not_mem_nil
  exact known.bind fun es spelled => spelled

/-- **Edges can be built.** With exact numbers nothing goes wrong. -/
theorem current_isOk [Field K] [LinearOrder K] [IsStrictOrderedRing K] [Scalar.Exact K]
    (tabled : lex.Tabled) (d : Dimension) : ∃ es, current lex .empty d = .ok es := by
  obtain ⟨es, built, _⟩ := (brings_current .exact tabled d).isOk
  exact ⟨es, built⟩

end EdgeStore

end Metrology
