import Mathlib.Data.List.Nodup
import Mathlib.Data.List.Pairwise
import Metrology.Catalogue.Loading
import Metrology.Proofs.Expression.Scanning

/-!
# Symbols of the catalogue

Every tabled symbol belongs to one unit, can be read by itself, and no prefix in front of a unit
that takes it gives the symbol of another unit or another unit with another prefix. The tables are
finite, so these facts are found by going through them.
-/
namespace Metrology

theorem Lexicon.rest?_eq_some {s b r : List Char} : rest? s b = some r ↔ s = b ++ r ∧ r ≠ [] := by
  induction b generalizing s with
  | nil =>
    cases s with
    | nil => simp [rest?, eq_comm]
    | cons c s =>
      simp only [rest?, Option.some.injEq, List.nil_append]
      constructor
      · rintro rfl
        exact ⟨rfl, nofun⟩
      · exact And.left
  | cons d b ih =>
    cases s with
    | nil => simp [rest?]
    | cons c s =>
      by_cases same : d = c
      · simp [rest?, same, ih]
      · simp [rest?, same, Ne.symm same]

namespace Catalogue

/-! ### Rows -/

def UnitRow.unicode (row : UnitRow) : String :=
  if row.unicodeSymbol.isEmpty then row.asciiSymbol else row.unicodeSymbol

/-- The symbols of the unit that a row declares. -/
def UnitRow.symbols (row : UnitRow) : List String :=
  let own :=
    if row.unicode = row.asciiSymbol then [row.asciiSymbol] else [row.asciiSymbol, row.unicode]
  match row.alternateSymbol with
  | none => own
  | some s => if s ∈ own then own else own ++ [s]

/-- The symbols in front of which a prefix may stand. -/
def UnitRow.scalable (row : UnitRow) : List String := [row.asciiSymbol, row.unicode]

theorem mem_symbols_of_scalable {row : UnitRow} {s : String} (own : s ∈ row.scalable) :
    s ∈ row.symbols := by
  have isOwn : s ∈ if row.unicode = row.asciiSymbol then [row.asciiSymbol]
      else [row.asciiSymbol, row.unicode] := by
    split
    next same => simpa [UnitRow.scalable, same] using own
    next => exact own
  cases alternate : row.alternateSymbol with
  | none => simpa only [UnitRow.symbols, alternate] using isOwn
  | some t =>
    simp only [UnitRow.symbols, alternate]
    generalize (if row.unicode = row.asciiSymbol then _ else _) = symbols at isOwn ⊢
    split
    · exact isOwn
    · exact List.mem_append_left _ isOwn

/-- The symbols of the prefix that a row declares. -/
def PrefixRow.symbols (row : PrefixRow) : List String :=
  if unicodeOf row.symbol = row.symbol then [row.symbol] else [row.symbol, unicodeOf row.symbol]

/-- Whether the unit of a row takes the prefix of another. -/
def UnitRow.accepts (row : UnitRow) (p : PrefixRow) : Bool := row.group.meets p.group

/-- Where nothing is listed twice, what is listed belongs to one row. -/
theorem eq_of_nodup_flatMap {α β : Type} {rows : List α} {f : α → List β}
    (nodup : (rows.flatMap f).Nodup) {a b : α} {x : β} (isRow : a ∈ rows) (isRow' : b ∈ rows)
    (own : x ∈ f a) (other : x ∈ f b) : a = b := by
  by_contra different
  have symmetric : Std.Symm (Function.onFun List.Disjoint f) :=
    ⟨fun _ _ disjoint _ left right => disjoint right left⟩
  exact (List.nodup_flatMap.mp nodup).2.forall isRow isRow' different own other

/-! ### Going through the tables -/

/-- The rows of the units that take prefixes. -/
def scalableRows : List UnitRow := (units.map (·.2)).filter fun row => row.group ≠ 0

/-- The text is a unit that takes the prefix. -/
def Takes (p : PrefixRow) (text : List Char) : Prop :=
  ∃ row ∈ scalableRows, row.accepts p = true ∧ ∃ t ∈ row.scalable, t.toList = text

instance (p : PrefixRow) (text : List Char) : Decidable (Takes p text) := by
  unfold Takes
  infer_instance

/-- The symbols of the tables can be told apart and read. -/
structure Unambiguous : Prop where
  /-- No symbol is tabled twice. -/
  nodup_symbols : (units.flatMap fun r => r.2.symbols).Nodup
  nodup_prefixSymbols : (prefixRows.flatMap (·.symbols)).Nodup
  /-- Every symbol of a unit but that of the scalar can be read by itself. -/
  isSymbol_of_tabled :
    ∀ r ∈ units, r.2.asciiSymbol ≠ "" → ∀ s ∈ r.2.symbols, Scanner.IsSymbol s.toList
  /-- Prefixes are made of symbol characters, and what they begin is a symbol. -/
  prefix_readable :
    ∀ p ∈ prefixRows, ∀ s ∈ p.symbols,
      s.toList.all Scanner.isSymbolChar = true ∧ Scanner.IsSymbol s.toList
  /-- So are the units that take prefixes. -/
  scalable_readable :
    ∀ row ∈ scalableRows, ∀ s ∈ row.scalable, s.toList.all Scanner.isSymbolChar = true
  /-- No prefix in front of a unit that takes it gives a tabled symbol. -/
  not_takes_of_tabled :
    ∀ r ∈ units, ∀ s ∈ r.2.symbols, ∀ p ∈ prefixRows, ∀ b ∈ p.symbols,
      ∀ rest ∈ Lexicon.rest? s.toList b.toList, ¬ Takes p rest
  /-- What a longer prefix has more than a shorter one begins no unit of the shorter one that ends in
  a unit of the longer. -/
  not_takes_of_longer :
    ∀ p ∈ prefixRows, ∀ q ∈ prefixRows, ∀ b ∈ p.symbols, ∀ e ∈ q.symbols,
      ∀ more ∈ Lexicon.rest? e.toList b.toList,
        ∀ row ∈ scalableRows, ∀ t ∈ row.scalable, ∀ rest ∈ Lexicon.rest? t.toList more,
          ¬ Takes q rest

instance : Decidable Unambiguous :=
  decidable_of_iff (_ ∧ _ ∧ _ ∧ _ ∧ _ ∧ _ ∧ _)
    ⟨fun ⟨units, prefixes, symbol, readable, scalable, tabled, longer⟩ =>
      ⟨units, prefixes, symbol, readable, scalable, tabled, longer⟩,
      fun own => ⟨own.nodup_symbols, own.nodup_prefixSymbols, own.isSymbol_of_tabled,
        own.prefix_readable, own.scalable_readable, own.not_takes_of_tabled,
        own.not_takes_of_longer⟩⟩

theorem unambiguous : Unambiguous := by decide +kernel

/-! ### Spellings -/

/-- The symbol is one of the unit of a row, or one of a prefix that it takes and one of the unit. -/
def Spells (s : String) (r : QuantityRow × UnitRow) : Option PrefixRow → Prop
  | none => s ∈ r.2.symbols
  | some p => p ∈ prefixRows ∧ r.2.accepts p = true ∧ ∃ b ∈ p.symbols, ∃ t ∈ r.2.scalable,
      s.toList = b.toList ++ t.toList ∧ t.toList ≠ []

theorem mem_scalableRows {r : QuantityRow × UnitRow} {p : PrefixRow} (isRow : r ∈ units)
    (accepts : r.2.accepts p = true) : r.2 ∈ scalableRows := by
  refine List.mem_filter.mpr ⟨List.mem_map_of_mem isRow, ?_⟩
  rw [decide_eq_true_eq]
  intro none
  simp [UnitRow.accepts, PrefixGroup.meets, none] at accepts

/-- A unit behind a prefix does not begin with what a longer prefix has more, if the rest is a unit
that takes the longer one. -/
theorem more_eq_nil {p q : PrefixRow} (isRow : p ∈ prefixRows) (isRow' : q ∈ prefixRows)
    {b e t t' : String} (own : b ∈ p.symbols) (own' : e ∈ q.symbols) {row : UnitRow}
    (listed : row ∈ scalableRows) (symbol : t ∈ row.scalable) {more : List Char}
    (longer : e.toList = b.toList ++ more) (left : t.toList = more ++ t'.toList)
    (some' : t'.toList ≠ []) (takes : Takes q t'.toList) : more = [] := by
  by_contra some
  exact unambiguous.not_takes_of_longer p isRow q isRow' b own e own' more
    (Lexicon.rest?_eq_some.mpr ⟨longer, some⟩) row listed t symbol t'.toList
    (Lexicon.rest?_eq_some.mpr ⟨left, some'⟩) takes

/-- No prefix in front of a unit spells a tabled symbol. -/
theorem not_spells_twice {s : String} {r r' : QuantityRow × UnitRow} {p : PrefixRow}
    (isRow : r ∈ units) (isRow' : r' ∈ units) (direct : Spells s r none)
    (scaled : Spells s r' (some p)) : False := by
  obtain ⟨isPrefix, accepts, b, own, t, symbol, split, some⟩ := scaled
  exact unambiguous.not_takes_of_tabled r isRow s direct p isPrefix b own t.toList
    (Lexicon.rest?_eq_some.mpr ⟨split, some⟩)
    ⟨r'.2, mem_scalableRows isRow' accepts, accepts, t, symbol, rfl⟩

/-- No symbol spells two units, or a unit in two ways. -/
theorem spells_unique {s : String} {r r' : QuantityRow × UnitRow} {p q : Option PrefixRow}
    (isRow : r ∈ units) (isRow' : r' ∈ units) (spells : Spells s r p) (spells' : Spells s r' q) :
    r = r' ∧ p = q := by
  match p, q with
  | none, none => exact ⟨eq_of_nodup_flatMap unambiguous.nodup_symbols isRow isRow' spells spells', rfl⟩
  | none, some q => exact (not_spells_twice isRow isRow' spells spells').elim
  | some p, none => exact (not_spells_twice isRow' isRow spells' spells).elim
  | some p, some q =>
    obtain ⟨isPrefix, accepts, b, own, t, symbol, split, some⟩ := spells
    obtain ⟨isPrefix', accepts', e, own', t', symbol', split', some'⟩ := spells'
    have listed := mem_scalableRows isRow accepts
    have listed' := mem_scalableRows isRow' accepts'
    have apart : b = e ∧ t = t' := by
      rw [← String.toList_inj, ← String.toList_inj]
      rcases List.append_eq_append_iff.mp (split.symm.trans split') with
        ⟨more, longer, left⟩ | ⟨more, longer, left⟩
      · obtain rfl := more_eq_nil isPrefix isPrefix' own own' listed symbol longer left some'
          ⟨r'.2, listed', accepts', t', symbol', rfl⟩
        simp_all
      · obtain rfl := more_eq_nil isPrefix' isPrefix own' own listed' symbol' longer left some
          ⟨r.2, listed, accepts, t, symbol, rfl⟩
        simp_all
    obtain ⟨rfl, rfl⟩ := apart
    exact ⟨eq_of_nodup_flatMap unambiguous.nodup_symbols isRow isRow' (mem_symbols_of_scalable symbol)
        (mem_symbols_of_scalable symbol'),
      congrArg _ (eq_of_nodup_flatMap unambiguous.nodup_prefixSymbols isPrefix isPrefix' own own')⟩

end Catalogue

end Metrology
