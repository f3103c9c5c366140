import Metrology.Proofs.Graph.Buildable
import Metrology.Proofs.Session.Knowing

/-!
# What the tables name can be read

In a session made from systems the SI base unit of an axis can be read if it is registered, so can
the ends of every edge, and expansions name units of a single axis. Only an expansion may name a unit
that is not registered, one of a system that was not loaded.
-/
namespace Metrology

namespace Catalogue

/-- Each unit that the text names measures a single axis. -/
def namesBases (text : String) : Bool :=
  match parseExpression text with
  | .ok parts => parts.all fun p => (dimensionIn units p.symbol).any fun d => d.baseAxis?.isSome
  | .error _ => false

theorem namesBases_of_expansion : ∀ r ∈ units, ∀ e ∈ r.2.expansion, namesBases e = true := by
  decide +kernel

/-- The unit of an axis without a prefix takes the prefix that it has in the SI. -/
theorem isSpelled_siSymbol :
    ∀ a ∈ Axis.all, ∀ r ∈ units, a.plainSymbol ∈ r.2.symbols → isSpelled a.siSymbol r = true := by
  decide +kernel

end Catalogue

variable {K : Type} [Scalar K]

namespace Lexicon

variable {lex : Lexicon K}

/-- The error comes from reading the expansion of a registered unit. -/
def FailsToExpand (lex : Lexicon K) (e : Error) : Prop :=
  ∃ s u expansion, lex.find? s = some u ∧ u.expansion = some expansion ∧
    lex.parse expansion = .error e

theorem Tabled.expansion_of_find? (tabled : lex.Tabled) {s expansion : String} {u : NamedUnit K}
    (found : lex.find? s = some u) (expands : u.expansion = some expansion) :
    ∃ r ∈ Catalogue.units, expansion ∈ r.2.expansion := by
  obtain ⟨_, r, declared⟩ := tabled.declared s u found
  refine ⟨r, declared.1, ?_⟩
  rw [← declared.fields.2.2.2.2.1, expands]
  rfl

/-- The expansion of a tabled unit consists of units of a single axis. -/
theorem Tabled.isBase_of_expansion (tabled : lex.Tabled) {s expansion : String} {u : NamedUnit K}
    (found : lex.find? s = some u) (expands : u.expansion = some expansion) {c : Compound K}
    (read : lex.parse expansion = .ok c) : ∀ t ∈ c.terms, t.isBase = true := by
  obtain ⟨r, isRow, own⟩ := tabled.expansion_of_find? found expands
  have bases := Catalogue.namesBases_of_expansion r isRow expansion own
  obtain ⟨parts, parsed, read⟩ := bind_eq_ok.mp read
  obtain ⟨ts, terms, product⟩ := bind_eq_ok.mp read
  rw [Catalogue.namesBases, parsed] at bases
  have single : ∀ t ∈ ts, t.Sound fun u _ => u.dimension.baseAxis?.isSome = true := by
    intro t mem
    obtain ⟨p, isPart, made⟩ := exists_of_mem_mapM terms mem
    obtain ⟨d, measured, axis⟩ := (Option.any_eq_true _ _).mp (List.all_eq_true.mp bases p isPart)
    have sound := (tabled.term_eq_ok made).1
    refine ⟨?_, sound.nonzero, sound.range, sound.accepted⟩
    rw [tabled.dimension_of_term (fun _ listed => listed) made measured]
    exact axis
  exact fun t mem => ((Compound.sound_of_ofTerms single product).terms t mem).1.base

/-- What is wrong with the expansion of a tabled unit is a matter of meaning: a unit is not
registered. -/
theorem Tabled.kind_of_failsToExpand (tabled : lex.Tabled) {e : Error} (fails : lex.FailsToExpand e) :
    e.kind = .meaning := by
  obtain ⟨s, u, expansion, found, expands, failed⟩ := fails
  obtain ⟨r, isRow, own⟩ := tabled.expansion_of_find? found expands
  rcases tabled.indexed.readsSmall (Catalogue.isSmall_of_expansion r isRow expansion own) with
    ⟨c, read, _⟩ | ⟨e', failed', meaning⟩
  · rw [failed] at read
    cases read
  · obtain rfl := Except.error.inj (failed.symm.trans failed')
    exact meaning

/-- The SI base unit of an axis can be read if it is registered without its prefix. -/
theorem Tabled.siTerm_isOk (tabled : lex.Tabled) {a : Axis}
    (listed : lex.contains a.plainSymbol = true) : ∃ si, lex.siTerm a = .ok si := by
  obtain ⟨u, found⟩ := Option.isSome_iff_exists.mp listed
  obtain ⟨own, r, declared⟩ := tabled.declared _ u found
  obtain ⟨p, spells⟩ := Catalogue.spells_of_isSpelled
    (Catalogue.isSpelled_siSymbol a a.mem_all r declared.1 (declared.symbols_eq ▸ own))
  obtain ⟨⟨v, scaling⟩, resolved⟩ := tabled.resolve_isOk (tabled.indexed _ _ found) declared spells
  obtain ⟨t, made⟩ : ∃ t, Term.make v scaling 1 = .ok t :=
    Term.make_isOk (by decide) (by decide) (accepts_of_resolve resolved)
  refine ⟨t, bind_eq_ok.mpr ⟨_, parseExpression_siSymbol a, ?_⟩⟩
  exact bind_eq_ok.mpr ⟨_, resolved, made⟩

/-- Tabled dimensions are in range. -/
theorem Tabled.inRange (tabled : lex.Tabled) {s : String} {u : NamedUnit K}
    (found : lex.find? s = some u) : u.dimension.InRange := by
  obtain ⟨_, r, declared⟩ := tabled.declared s u found
  obtain ⟨v, _, checked⟩ := bind_eq_ok.mp declared.fields.2.2.2.2.2.2
  obtain ⟨same, inRange⟩ := Dimension.checked_eq_ok_iff.mp checked
  exact same ▸ inRange

end Lexicon

namespace Session

variable {good : K → Prop} {fault : Error → Prop} {systems : List MeasurementSystem} {s : Session K}

theorem furnished_ofSystems (within : Scalar.Within good fault) (made : ofSystems systems = .ok s) :
    s.Furnished good := by
  have tabled := tabled_ofSystems made
  refine ⟨tabled.indexed, tabled.good_prefixes within, fun symbol u found => ?_,
    fun d es registered key c edge => ?_⟩
  · obtain ⟨_, r, declared⟩ := tabled.declared symbol u found
    rw [declared.fields.2.2.2.2.2.1]
    exact within.one
  · rw [(blank_of_ofSystems made).1] at registered
    have spelled := (EdgeStore.brings_current within tabled d).given registered _
      (Register.mem_rows_of_get? edge)
    exact ⟨congrArg Prod.fst spelled.key.symm, congrArg Prod.snd spelled.key.symm, spelled.factor⟩

/-- All that is named can be read, but for expansions that name a unit of another system. -/
theorem readable_ofSystems (within : Scalar.Within good fault) (made : ofSystems systems = .ok s) :
    s.Readable fun e => fault e ∨ s.lexicon.FailsToExpand e := by
  have tabled := tabled_ofSystems made
  have built (d : Dimension) := EdgeStore.brings_current within tabled d
  rw [← (blank_of_ofSystems made).1] at built
  refine ⟨fun d e failed => .inl ((built d).failed failed), fun d es node registered isNode => ?_,
    fun a => tabled.siTerm_isOk, fun symbol u expansion found expands => ?_, fun symbol u found =>
      ⟨tabled.inRange found, tabled.dimensionless_of_isScalar (tabled.indexed symbol u found)⟩⟩
  · rcases List.mem_append.mp (List.mem_eraseDups.mp isNode) with isUnit | isEnd
    · obtain ⟨u, listed, rfl⟩ := List.mem_map.mp isUnit
      obtain ⟨c, read, _⟩ :=
        tabled.exists_parse_asciiSymbol (tabled.find?_of_ofDimension listed).1
      exact ⟨c, read⟩
    · obtain ⟨key, isKey, isEnd⟩ := List.mem_flatMap.mp isEnd
      obtain ⟨row, isRow, rfl⟩ := List.mem_map.mp isKey
      have spelled := (built d).given registered row isRow
      rw [spelled.key] at isEnd
      simp only [List.mem_cons, List.not_mem_nil, or_false] at isEnd
      rcases isEnd with rfl | rfl
      · exact spelled.src
      · exact spelled.dest
  · exact .of_given (fun c read => tabled.isBase_of_expansion found expands read)
      fun e failed => .inr ⟨symbol, u, expansion, found, expands, failed⟩

end Session

end Metrology
