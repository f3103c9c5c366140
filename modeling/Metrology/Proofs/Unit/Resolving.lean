import Metrology.Proofs.Catalogue.Consistency
import Metrology.Proofs.Catalogue.Registered
import Metrology.Proofs.Unit.Product

/-!
# Reading symbols

In a lexicon of tabled units every unit, with or without a prefix that it takes, is found again
under the symbol it is written with.
-/
namespace Metrology

variable {K : Type}

/-! ### Prefixes -/

namespace PrefixTable

theorem mem_insertByReach {p q : Prefix K} {ps : List (Prefix K)} :
    p ∈ insertByReach q ps ↔ p = q ∨ p ∈ ps := by
  induction ps with
  | nil => simp [insertByReach]
  | cons r rest ih =>
    rw [insertByReach]
    split
    · simp
    · simp only [List.mem_cons, ih]
      tauto

theorem mem_longestFirst {t : PrefixTable K} {p : Prefix K} : p ∈ t.longestFirst ↔ p ∈ t.all := by
  rw [longestFirst]
  induction t.all with
  | nil => simp
  | cons q rest ih => simp [mem_insertByReach, ih]

theorem mem_all_add {t : PrefixTable K} {p q : Prefix K}
    (mem : p ∈ ((t.add q).toOption.getD t).all) : p ∈ t.all ∨ p = q := by
  unfold add at mem
  split at mem
  · exact .inl mem
  · exact (List.mem_append.mp mem).imp_right List.mem_singleton.mp

end PrefixTable

namespace Catalogue

variable [Scalar K]

/-- Every prefix of the table is a tabled one. -/
theorem exists_row_of_mem {p : Prefix K} (mem : p ∈ (prefixes : PrefixTable K).all) :
    ∃ row ∈ prefixRows, p = row.toPrefix := by
  have run : ∀ rows : List PrefixRow, ∀ t : PrefixTable K,
      p ∈ (rows.foldl (fun t row => (t.add row.toPrefix).toOption.getD t) t).all →
      p ∈ t.all ∨ ∃ row ∈ rows, p = row.toPrefix := by
    intro rows
    induction rows with
    | nil => exact fun t mem => .inl mem
    | cons row rest ih =>
      intro t mem
      rcases ih _ mem with old | ⟨other, inside, same⟩
      · rcases PrefixTable.mem_all_add old with old | new
        · exact .inl old
        · exact .inr ⟨row, List.mem_cons_self, new⟩
      · exact .inr ⟨other, List.mem_cons_of_mem _ inside, same⟩
  rcases run prefixRows .empty mem with none | found
  · cases none
  · exact found

theorem symbols_toPrefix (row : PrefixRow) : (row.toPrefix : Prefix K).symbols = row.symbols := rfl

/-- Every tabled prefix is in the table. -/
theorem mem_prefixes {row : PrefixRow} (isRow : row ∈ prefixRows) :
    row.toPrefix ∈ (prefixes : PrefixTable K).all := by
  have run : ∀ rows : List PrefixRow, (rows.flatMap (·.symbols)).Nodup → ∀ t : PrefixTable K,
      (∀ row ∈ rows, ∀ s ∈ row.symbols, t.bySymbol.contains s = false) → ∀ p : Prefix K,
      (p ∈ t.all ∨ ∃ row ∈ rows, p = row.toPrefix) →
      p ∈ (rows.foldl (fun t row => (t.add row.toPrefix).toOption.getD t) t).all := by
    intro rows
    induction rows with
    | nil => exact fun _ t _ p known => known.resolve_right nofun
    | cons row rest ih =>
      intro nodup t free p known
      obtain ⟨_, later, disjoint⟩ := List.nodup_append.mp (List.flatMap_cons ▸ nodup)
      have added : (t.add row.toPrefix).toOption.getD t =
          ⟨t.all ++ [row.toPrefix], t.bySymbol.putAll (row.symbols.map fun s => (s, row.toPrefix))⟩ := by
        have none : row.symbols.find? t.bySymbol.contains = none :=
          List.find?_eq_none.mpr fun s own => by simp [free row List.mem_cons_self s own]
        rw [PrefixTable.add, symbols_toPrefix, none]
        rfl
      rw [List.foldl_cons, added]
      refine ih later _ (fun other mem s own => ?_) p ?_
      · have fresh : s ∉ row.symbols := fun taken =>
          disjoint s taken s (List.mem_flatMap.mpr ⟨other, mem, own⟩) rfl
        rw [Register.contains, Register.get?_putAll, if_neg fresh]
        exact free other (List.mem_cons_of_mem _ mem) s own
      · show p ∈ t.all ++ [row.toPrefix] ∨ _
        rcases known with old | ⟨other, mem, rfl⟩
        · exact .inl (List.mem_append_left _ old)
        · rcases List.mem_cons.mp mem with rfl | mem
          · exact .inl (List.mem_append_right _ (List.mem_singleton.mpr rfl))
          · exact .inr ⟨other, mem, rfl⟩
  exact run prefixRows unambiguous.nodup_prefixSymbols .empty (fun _ _ _ _ => rfl) _
    (.inr ⟨row, isRow, rfl⟩)

end Catalogue

/-! ### Readings -/

namespace Lexicon

theorem scaledUnit?_eq_some {lex : Lexicon K} {s b : String} {u : NamedUnit K} :
    lex.scaledUnit? s b = some u ↔
      ∃ t : String, s.toList = b.toList ++ t.toList ∧ t.toList ≠ [] ∧ lex.find? t = some u ∧
        (t = u.asciiSymbol ∨ t = u.unicodeSymbol) := by
  unfold scaledUnit?
  simp only [Option.bind_eq_bind, Option.bind_eq_some_iff, Option.ite_none_right_eq_some,
    Option.some.injEq]
  constructor
  · rintro ⟨r, left, v, found, own, rfl⟩
    obtain ⟨split, some⟩ := rest?_eq_some.mp left
    exact ⟨_, by simpa using split, by simpa using some, found, own⟩
  · rintro ⟨t, split, some, found, own⟩
    refine ⟨t.toList, rest?_eq_some.mpr ⟨split, some⟩, u, ?_, ?_, rfl⟩
    · rwa [String.ofList_toList]
    · rwa [String.ofList_toList]

theorem mem_readings {lex : Lexicon K} {s : String} {r : Reading K} :
    r ∈ lex.readings s ↔
      r.scaling ∈ lex.prefixes.all ∧ ∃ b ∈ r.scaling.symbols, lex.scaledUnit? s b = some r.unit := by
  simp only [readings, List.mem_flatMap, List.mem_filterMap, PrefixTable.mem_longestFirst,
    Option.map_eq_some_iff]
  constructor
  · rintro ⟨p, mem, b, own, u, found, rfl⟩
    exact ⟨mem, b, own, found⟩
  · rintro ⟨mem, b, own, found⟩
    exact ⟨r.scaling, mem, b, own, r.unit, found, rfl⟩

/-! ### Tabled lexicons -/

variable [Scalar K] {lex : Lexicon K}

open Catalogue (Declared Spells)

theorem Tabled.spells_of_find? (tabled : lex.Tabled) {s : String} {u : NamedUnit K}
    (found : lex.find? s = some u) : ∃ row, Declared u row ∧ Spells s row none := by
  obtain ⟨own, row, declared⟩ := tabled.declared s u found
  rw [declared.symbols_eq] at own
  exact ⟨row, declared, own⟩

/-- A reading that the unit accepts, by the rows of its unit and its prefix. -/
theorem Tabled.spells_of_reading (tabled : lex.Tabled) {s : String} {r : Reading K}
    (mem : r ∈ lex.readings s) (accepts : r.unit.accepts r.scaling = true) :
    ∃ row p, Declared r.unit row ∧ r.scaling = p.toPrefix ∧ Spells s row (some p) := by
  obtain ⟨listed, b, own, scaled⟩ := mem_readings.mp mem
  obtain ⟨t, split, some, found, symbol⟩ := scaledUnit?_eq_some.mp scaled
  rw [tabled.prefixes] at listed
  obtain ⟨p, isRow, same⟩ := Catalogue.exists_row_of_mem listed
  obtain ⟨_, row, declared⟩ := tabled.declared t r.unit found
  obtain ⟨ascii, unicode, _, group, _⟩ := declared.fields
  rw [same] at own accepts
  rw [ascii, unicode] at symbol
  refine ⟨row, p, declared, same, isRow, by rwa [Catalogue.UnitRow.accepts, ← group], b, own, t,
    by simpa [Catalogue.UnitRow.scalable] using symbol, split, some⟩

theorem Tabled.find?_eq_none (tabled : lex.Tabled) {s : String} {r : Reading K}
    (mem : r ∈ lex.readings s) (accepts : r.unit.accepts r.scaling = true) :
    lex.find? s = none := by
  obtain ⟨row, p, declared, _, spells⟩ := tabled.spells_of_reading mem accepts
  cases found : lex.find? s with
  | none => rfl
  | some v =>
    obtain ⟨row', declared', spells'⟩ := tabled.spells_of_find? found
    exact nomatch (Catalogue.spells_unique declared.1 declared'.1 spells spells').2

/-- No symbol can be taken apart in two ways. -/
theorem Tabled.reading_unique (tabled : lex.Tabled) {s : String} {r r' : Reading K}
    (mem : r ∈ lex.readings s) (accepts : r.unit.accepts r.scaling = true)
    (mem' : r' ∈ lex.readings s) (accepts' : r'.unit.accepts r'.scaling = true) : r = r' := by
  obtain ⟨row, p, declared, same, spells⟩ := tabled.spells_of_reading mem accepts
  obtain ⟨row', q, declared', same', spells'⟩ := tabled.spells_of_reading mem' accepts'
  obtain ⟨rfl, alike⟩ := Catalogue.spells_unique declared.1 declared'.1 spells spells'
  obtain rfl := Option.some.inj alike
  have units : r.unit = r'.unit := declared.eq declared'
  cases r
  cases r'
  simp_all

/-- A symbol stands for the unit and the prefix that it is read as, if the unit takes the prefix. -/
theorem Tabled.resolve_of_reading (tabled : lex.Tabled) {s : String} {r : Reading K}
    (mem : r ∈ lex.readings s) (accepts : r.unit.accepts r.scaling = true) :
    lex.resolve s = .ok (r.unit, some r.scaling) := by
  rw [resolve, tabled.find?_eq_none mem accepts]
  dsimp only
  cases first : (lex.readings s).find? fun r => r.unit.accepts r.scaling with
  | none => exact absurd accepts (List.find?_eq_none.mp first _ mem)
  | some r' =>
    have same : r' = r := tabled.reading_unique (List.mem_of_find?_eq_some first)
      (by simpa using List.find?_some first) mem accepts
    rw [same]

/-- The unit and the prefix that a symbol in the lexicon may stand for. -/
def Names (lex : Lexicon K) (u : NamedUnit K) (scaling : Option (Prefix K)) : Prop :=
  lex.find? u.asciiSymbol = some u ∧ ∀ p, scaling = some p → p ∈ lex.prefixes.all

omit [Scalar K] in
theorem Names.withoutPrefix {u : NamedUnit K} {scaling : Option (Prefix K)}
    (names : lex.Names u scaling) : lex.Names u none :=
  ⟨names.1, nofun⟩

/-- Every unit is found under its ASCII symbol. -/
def Indexed (lex : Lexicon K) : Prop :=
  ∀ s u, lex.find? s = some u → lex.find? u.asciiSymbol = some u

theorem Tabled.indexed (tabled : lex.Tabled) : lex.Indexed :=
  fun s u found => tabled.complete s u found _ (NamedUnit.mem_symbols u (.inl rfl))

omit [Scalar K] in
theorem Consistent.indexed (consistent : lex.Consistent) : lex.Indexed :=
  fun s u found => consistent.complete s u found _ (u.mem_symbols (.inl rfl))

omit [Scalar K] in
/-- A symbol stands for a unit that is found under it, or for a reading with a prefix that the unit
takes. -/
theorem resolve_cases {s : String} {u : NamedUnit K} {scaling : Option (Prefix K)}
    (resolved : lex.resolve s = .ok (u, scaling)) :
    (lex.find? s = some u ∧ scaling = none) ∨
      ∃ p, scaling = some p ∧ (⟨u, p⟩ : Reading K) ∈ lex.readings s ∧ u.accepts p = true := by
  unfold resolve at resolved
  split at resolved
  next v found =>
    obtain ⟨rfl, rfl⟩ := Prod.mk.inj (Except.ok.inj resolved)
    exact .inl ⟨found, rfl⟩
  next =>
    dsimp only at resolved
    split at resolved
    next r found =>
      obtain ⟨rfl, rfl⟩ := Prod.mk.inj (Except.ok.inj resolved)
      exact .inr ⟨_, rfl, List.mem_of_find?_eq_some found, by simpa using List.find?_some found⟩
    next => split at resolved <;> cases resolved

omit [Scalar K] in
/-- What a symbol stands for is in the lexicon. -/
theorem Indexed.names_of_resolve (indexed : lex.Indexed) {s : String} {u : NamedUnit K}
    {scaling : Option (Prefix K)} (resolved : lex.resolve s = .ok (u, scaling)) :
    lex.Names u scaling := by
  rcases resolve_cases resolved with ⟨found, rfl⟩ | ⟨p, rfl, reading, _⟩
  · exact ⟨indexed _ _ found, nofun⟩
  · obtain ⟨listed, b, _, scaled⟩ := mem_readings.mp reading
    obtain ⟨t, _, _, isUnit, _⟩ := scaledUnit?_eq_some.mp scaled
    exact ⟨indexed _ _ isUnit, fun q same => Option.some.inj same ▸ listed⟩

omit [Scalar K] in
/-- The unit takes the prefix. -/
theorem accepts_of_resolve {s : String} {u : NamedUnit K} {scaling : Option (Prefix K)}
    (resolved : lex.resolve s = .ok (u, scaling)) : ∀ p, scaling = some p → u.accepts p = true := by
  rintro p rfl
  rcases resolve_cases resolved with ⟨_, none⟩ | ⟨q, same, _, accepts⟩
  · cases none
  · exact Option.some.inj same ▸ accepts

/-- The symbols of a unit other than the scalar are not empty. -/
theorem Tabled.isSymbol (tabled : lex.Tabled) {u : NamedUnit K} {s : String}
    (found : lex.find? u.asciiSymbol = some u) (visible : u.isScalar = false)
    (own : s ∈ u.symbols) : Scanner.IsSymbol s.toList := by
  obtain ⟨_, row, declared⟩ := tabled.declared _ u found
  have named : row.2.asciiSymbol ≠ "" := by
    rw [← declared.fields.1]
    simpa [NamedUnit.isScalar] using visible
  exact Catalogue.unambiguous.isSymbol_of_tabled row declared.1 named s (declared.symbols_eq ▸ own)

/-- A unit with a prefix that it takes is among the readings of its symbol. -/
theorem Tabled.mem_readings_spelling (tabled : lex.Tabled) (script : Script) {u : NamedUnit K}
    {p : Prefix K} {n : Int} (names : lex.Names u (some p)) (visible : u.isScalar = false) :
    (⟨u, p⟩ : Reading K) ∈ lex.readings (Term.spelling script ⟨u, some p, n⟩) := by
  obtain ⟨found, listed⟩ := names
  have prefixOwn : ∀ b, b = p.asciiSymbol ∨ b = p.unicodeSymbol → b ∈ p.symbols := by
    intro b own
    unfold Prefix.symbols
    split
    next same => simpa [same] using own
    next => simpa using own
  have unitOwn : ∀ t, t = u.asciiSymbol ∨ t = u.unicodeSymbol →
      t.toList ≠ [] ∧ lex.find? t = some u := by
    intro t own
    have symbol := u.mem_symbols own
    obtain ⟨_, c, r, same, _⟩ := tabled.isSymbol found visible symbol
    exact ⟨by simp [same], tabled.complete _ _ found t symbol⟩
  refine mem_readings.mpr ⟨listed p rfl, ?_⟩
  cases script with
  | ascii =>
    obtain ⟨some, isUnit⟩ := unitOwn _ (.inl rfl)
    exact ⟨p.asciiSymbol, prefixOwn _ (.inl rfl), scaledUnit?_eq_some.mpr
      ⟨u.asciiSymbol, String.toList_append, some, isUnit, .inl rfl⟩⟩
  | unicode =>
    obtain ⟨some, isUnit⟩ := unitOwn _ (.inr rfl)
    exact ⟨p.unicodeSymbol, prefixOwn _ (.inr rfl), scaledUnit?_eq_some.mpr
      ⟨u.unicodeSymbol, String.toList_append, some, isUnit, .inr rfl⟩⟩

omit [Scalar K] in
/-- The symbol without a prefix is the one of the unit. -/
theorem spelling_of_unscaled (script : Script) (u : NamedUnit K) (n : Int) :
    Term.spelling script ⟨u, none, n⟩ = u.asciiSymbol ∨
      Term.spelling script ⟨u, none, n⟩ = u.unicodeSymbol := by
  cases script <;> simp [Term.spelling, Term.scalingSymbol]

/-- Every unit, with or without a prefix that it takes, is found under the symbol it is written
with. -/
theorem Tabled.resolve_spelling (tabled : lex.Tabled) (script : Script) {t : Term K}
    (sound : t.Sound lex.Names) (visible : t.isScalar = false) :
    lex.resolve (t.spelling script) = .ok (t.unit, t.scaling) := by
  obtain ⟨unit, scaling, exponent⟩ := t
  cases scaling with
  | none =>
    have symbol := unit.mem_symbols (spelling_of_unscaled script unit exponent)
    rw [resolve, tabled.complete _ _ sound.base.1 _ symbol]
  | some p =>
    exact tabled.resolve_of_reading
      (tabled.mem_readings_spelling script (n := exponent) sound.base visible) (sound.accepted p rfl)

/-- A symbol that is spelled by the row of a registered unit stands for something. -/
theorem Tabled.resolve_isOk (tabled : lex.Tabled) {u : NamedUnit K}
    (found : lex.find? u.asciiSymbol = some u) {row : Catalogue.QuantityRow × Catalogue.UnitRow}
    (declared : Declared u row) {s : String} {p : Option Catalogue.PrefixRow} (spells : Spells s row p) :
    ∃ named, lex.resolve s = .ok named := by
  obtain ⟨ascii, unicode, _, group, _⟩ := declared.fields
  cases p with
  | none =>
    have own : s ∈ u.symbols := declared.symbols_eq ▸ spells
    exact ⟨(u, none), by rw [resolve, tabled.complete _ u found s own]⟩
  | some p =>
    obtain ⟨isRow, accepts, b, own, t, scalable, split, some⟩ := spells
    have symbol : t = u.asciiSymbol ∨ t = u.unicodeSymbol := by
      rw [ascii, unicode]
      simpa [Catalogue.UnitRow.scalable] using scalable
    have isUnit := tabled.complete _ u found t (u.mem_symbols symbol)
    have reading : (⟨u, p.toPrefix⟩ : Reading K) ∈ lex.readings s := by
      refine mem_readings.mpr ⟨tabled.prefixes ▸ Catalogue.mem_prefixes isRow, b, own, ?_⟩
      exact scaledUnit?_eq_some.mpr ⟨t, split, some, isUnit, symbol⟩
    have taken : u.accepts p.toPrefix = true := by
      rwa [Catalogue.UnitRow.accepts, ← group] at accepts
    exact ⟨_, tabled.resolve_of_reading reading taken⟩

/-- What stands before an exponent of a term can be read. -/
theorem Tabled.isPart_content (tabled : lex.Tabled) (script : Script) {t : Term K}
    (sound : t.Sound lex.Names) (visible : t.isScalar = false) : IsPart (t.content script) := by
  refine ⟨?_, sound.nonzero, sound.range⟩
  obtain ⟨unit, scaling, exponent⟩ := t
  cases scaling with
  | none =>
    exact tabled.isSymbol sound.base.1 visible
      (unit.mem_symbols (spelling_of_unscaled script unit exponent))
  | some p =>
    have reading := tabled.mem_readings_spelling script (n := exponent) sound.base visible
    obtain ⟨row, q, declared, _, isRow, accepts, b, own, t, symbol, split, _⟩ :=
      tabled.spells_of_reading reading (sound.accepted p rfl)
    obtain ⟨letters, _, c, r, begins, _, blank, operator⟩ :=
      Catalogue.unambiguous.prefix_readable q isRow b own
    have further := Catalogue.unambiguous.scalable_readable _ (Catalogue.mem_scalableRows declared.1 accepts)
      t symbol
    rw [Term.content, split, begins, List.cons_append]
    refine Scanner.isSymbol_of_all ?_ blank operator
    rw [← List.cons_append, ← begins, List.all_append, letters, further]
    rfl

end Lexicon

end Metrology
