import Metrology.Proofs.Catalogue.Representation
import Metrology.Proofs.ExactNumber
import Metrology.Proofs.Unit.Resolving

/-!
# Prefixes in the order in which they are tried

A symbol that is not registered is taken apart into a symbol of a prefix and the symbol of a unit.
The prefixes are tried in the order of the longest of their symbols, then in the order in which they
were added; of one prefix the ASCII symbol is tried first. So what is found need not begin with the
longest symbol of a prefix that would do, but it does where each prefix has symbols of one length.
-/
namespace Metrology

variable {K : Type}

/-! ### The order of the prefixes -/

namespace Prefix

variable {p : Prefix K} {b : String}

theorem mem_symbols_iff : b ∈ p.symbols ↔ b = p.asciiSymbol ∨ b = p.unicodeSymbol := by
  unfold symbols
  split
  next same => simp [same]
  next => simp

theorem reach_eq : p.reach = max p.asciiSymbol.length p.unicodeSymbol.length := by
  unfold reach symbols
  split
  next same => simp [same]
  next => simp

theorem length_le_reach (own : b ∈ p.symbols) : b.length ≤ p.reach := by
  rw [reach_eq]
  rcases mem_symbols_iff.mp own with rfl | rfl
  · exact Nat.le_max_left ..
  · exact Nat.le_max_right ..

end Prefix

namespace PrefixTable

variable {t : PrefixTable K} {p q : Prefix K} {ps : List (Prefix K)}

/-- A prefix finds its place among those in order. -/
theorem pairwise_insertByReach {R : Prefix K → Prefix K → Prop}
    (falling : ∀ q r, R q r → r.reach ≤ q.reach) (ordered : ps.Pairwise R)
    (further : ∀ q ∈ ps, p.reach < q.reach → R q p)
    (nearer : ∀ q ∈ ps, q.reach ≤ p.reach → R p q) : (insertByReach p ps).Pairwise R := by
  induction ps with
  | nil => exact List.pairwise_singleton _ _
  | cons q rest ih =>
    obtain ⟨before, tail⟩ := List.pairwise_cons.mp ordered
    rw [insertByReach]
    split
    next fits =>
      refine List.pairwise_cons.mpr ⟨fun r mem => nearer r mem ?_, ordered⟩
      rcases List.mem_cons.mp mem with rfl | inside
      · exact fits
      · exact (falling q r (before r inside)).trans fits
    next fails =>
      refine List.pairwise_cons.mpr ⟨fun r mem => ?_, ih tail
        (fun r inside => further r (List.mem_cons_of_mem _ inside))
        fun r inside => nearer r (List.mem_cons_of_mem _ inside)⟩
      rcases mem_insertByReach.mp mem with rfl | inside
      · exact further q List.mem_cons_self (Nat.not_le.mp fails)
      · exact before r inside

/-- Further symbols first, and of equal ones those that were added earlier. -/
theorem pairwise_longestFirst (t : PrefixTable K) :
    t.longestFirst.Pairwise fun p q =>
      q.reach < p.reach ∨ q.reach = p.reach ∧ [p, q].Sublist t.all := by
  have run (ps : List (Prefix K)) : (∀ q, q ∈ ps.foldr insertByReach [] → q ∈ ps) ∧
      (ps.foldr insertByReach []).Pairwise fun p q =>
        q.reach < p.reach ∨ q.reach = p.reach ∧ [p, q].Sublist ps := by
    induction ps with
    | nil => exact ⟨fun _ mem => mem, .nil⟩
    | cons p rest ih =>
      obtain ⟨members, ordered⟩ := ih
      refine ⟨fun q mem => ?_, pairwise_insertByReach (fun q r before => ?_)
        (ordered.imp fun before => ?_) (fun q _ more => .inl more) fun q mem less => ?_⟩
      · rcases mem_insertByReach.mp mem with rfl | inside
        · exact List.mem_cons_self
        · exact List.mem_cons_of_mem _ (members q inside)
      · exact before.elim Nat.le_of_lt fun alike => Nat.le_of_eq alike.1
      · exact before.imp_right fun alike => ⟨alike.1, alike.2.cons _⟩
      · rcases Nat.lt_or_eq_of_le less with less | alike
        · exact .inl less
        · exact .inr ⟨alike, (List.singleton_sublist.mpr (members q mem)).cons_cons _⟩
  exact (run t.all).2

/-- One symbol of a prefix is tried before another. -/
inductive Precedes (t : PrefixTable K) : Prefix K × String → Prefix K × String → Prop
  | further {p q : Prefix K} {b c : String} (more : q.reach < p.reach) : Precedes t (p, b) (q, c)
  | earlier {p q : Prefix K} {b c : String} (alike : q.reach = p.reach)
      (order : [p, q].Sublist t.all) : Precedes t (p, b) (q, c)
  | ascii {p : Prefix K} : Precedes t (p, p.asciiSymbol) (p, p.unicodeSymbol)

theorem Precedes.reach_le {b c : String} (precedes : t.Precedes (p, b) (q, c)) :
    q.reach ≤ p.reach := by
  cases precedes with
  | further more => exact Nat.le_of_lt more
  | earlier alike _ => exact Nat.le_of_eq alike
  | ascii => exact Nat.le_refl _

/-- The symbols of the prefixes in the order in which they are tried. -/
def attempts (t : PrefixTable K) : List (Prefix K × String) :=
  t.longestFirst.flatMap fun p => p.symbols.map fun b => (p, b)

theorem mem_attempts {b : String} : (p, b) ∈ t.attempts ↔ p ∈ t.all ∧ b ∈ p.symbols := by
  simp only [attempts, List.mem_flatMap, List.mem_map, mem_longestFirst, Prod.mk.injEq]
  constructor
  · rintro ⟨q, mem, c, own, rfl, rfl⟩
    exact ⟨mem, own⟩
  · rintro ⟨mem, own⟩
    exact ⟨p, mem, b, own, rfl, rfl⟩

theorem pairwise_attempts (t : PrefixTable K) : t.attempts.Pairwise t.Precedes := by
  refine List.pairwise_flatMap.mpr ⟨fun p _ => ?_, t.pairwise_longestFirst.imp fun before => ?_⟩
  · unfold Prefix.symbols
    split
    · exact List.pairwise_singleton _ _
    · exact List.pairwise_pair.mpr .ascii
  · intro x inFirst y inSecond
    obtain ⟨b, _, rfl⟩ := List.mem_map.mp inFirst
    obtain ⟨c, _, rfl⟩ := List.mem_map.mp inSecond
    rcases before with more | ⟨alike, order⟩
    · exact .further more
    · exact .earlier alike order

end PrefixTable

/-! ### Taking a symbol apart -/

namespace Lexicon

variable {lex : Lexicon K} {s b : String} {p : Prefix K} {u : NamedUnit K}

/-- The text is a symbol of a prefix followed by the ASCII or Unicode symbol of a listed unit that
takes the prefix. -/
structure Splits (lex : Lexicon K) (s b : String) (p : Prefix K) (u : NamedUnit K) : Prop where
  known : p ∈ lex.prefixes.all
  beginning : b = p.asciiSymbol ∨ b = p.unicodeSymbol
  listed : u ∈ lex.units.values
  rest : ∃ r : String, r ≠ "" ∧ (r = u.asciiSymbol ∨ r = u.unicodeSymbol) ∧ s = b ++ r
  accepts : u.accepts p = true

theorem Consistent.splits_iff (consistent : lex.Consistent) :
    lex.Splits s b p u ↔
      (p, b) ∈ lex.prefixes.attempts ∧ lex.scaledUnit? s b = some u ∧ u.accepts p = true := by
  rw [PrefixTable.mem_attempts, Prefix.mem_symbols_iff, scaledUnit?_eq_some]
  constructor
  · rintro ⟨known, beginning, listed, ⟨r, some, symbol, rfl⟩, accepts⟩
    refine ⟨⟨known, beginning⟩, ⟨r, String.toList_append, ?_, ?_, symbol⟩, accepts⟩
    · simpa using some
    · exact consistent.find?_iff_listed.mpr ⟨listed, u.mem_symbols symbol⟩
  · rintro ⟨⟨known, beginning⟩, ⟨r, split, some, found, symbol⟩, accepts⟩
    refine ⟨known, beginning, (consistent.find?_iff_listed.mp found).1, ⟨r, ?_, symbol, ?_⟩, accepts⟩
    · rintro rfl
      exact some rfl
    · rw [← String.toList_inj, String.toList_append, split]

/-- The readings of a symbol, one for each attempt that leaves the symbol of a unit. -/
theorem readings_eq : lex.readings s = lex.prefixes.attempts.filterMap fun a =>
    (lex.scaledUnit? s a.2).map fun u => ⟨u, a.1⟩ := by
  rw [readings, PrefixTable.attempts, List.filterMap_flatMap]
  simp only [List.filterMap_map, Function.comp_def]

/-- Whether what is left behind a symbol of a prefix is a unit that takes it. -/
def fits (lex : Lexicon K) (s : String) (a : Prefix K × String) : Bool :=
  (lex.scaledUnit? s a.2).any fun u => u.accepts a.1

theorem fits_eq_true_iff : lex.fits s (p, b) = true ↔
    ∃ u, lex.scaledUnit? s b = some u ∧ u.accepts p = true := by
  rw [fits, Option.any_eq_true]

/-- The reading that is accepted is that of the first attempt that fits. -/
theorem find?_readings : (lex.readings s).find? (fun r => r.unit.accepts r.scaling) =
    (lex.prefixes.attempts.find? (lex.fits s)).bind fun a =>
      (lex.scaledUnit? s a.2).map fun u => ⟨u, a.1⟩ := by
  rw [readings_eq, List.find?_filterMap]
  simp only [Option.any_map]
  rfl

theorem kind_of_resolve {e : Error} (failed : lex.resolve s = .error e) : e.kind = .meaning := by
  unfold resolve at failed
  split at failed
  next => cases failed
  next =>
    dsimp only at failed
    split at failed
    next => cases failed
    next =>
      split at failed
      next => exact Except.error.inj failed ▸ rfl
      next => exact Except.error.inj failed ▸ rfl

/-- The symbol stands for what the first attempt that fits leaves. -/
structure First (lex : Lexicon K) (s b : String) (p : Prefix K) (u : NamedUnit K) : Prop where
  splits : lex.Splits s b p u
  resolved : lex.resolve s = .ok (u, some p)
  first : ∀ c q v, lex.Splits s c q v →
    (c, q, v) = (b, p, u) ∨ lex.prefixes.Precedes (p, b) (q, c)

/-- If the first attempt that fits has the longest symbol of its prefix, none that fits is longer. -/
theorem First.longest (first : lex.First s b p u) (longest : b.length = p.reach) {c : String}
    {q : Prefix K} {v : NamedUnit K} (splits : lex.Splits s c q v) : c.length ≤ b.length := by
  rcases first.first c q v splits with same | later
  · obtain ⟨rfl, _⟩ := Prod.mk.inj same
    exact Nat.le_refl _
  · have own : c ∈ q.symbols := Prefix.mem_symbols_iff.mpr splits.beginning
    exact (Prefix.length_le_reach own).trans (later.reach_le.trans_eq longest.symm)

/-- A symbol that is not registered is refused if no attempt fits. -/
theorem Consistent.unsplit_of_none (consistent : lex.Consistent) (unregistered : lex.find? s = none)
    (attempt : lex.prefixes.attempts.find? (lex.fits s) = none) :
    (∃ e, lex.resolve s = .error e) ∧ ∀ b p u, ¬ lex.Splits s b p u := by
  constructor
  · have refused : (lex.readings s).find? (fun r => r.unit.accepts r.scaling) = none := by
      rw [find?_readings, attempt]
      rfl
    rw [resolve, unregistered]
    dsimp only
    rw [refused]
    dsimp only
    cases lex.readings s with
    | nil => exact ⟨_, rfl⟩
    | cons r _ => exact ⟨_, rfl⟩
  · intro b p u splits
    obtain ⟨tried, left, accepts⟩ := consistent.splits_iff.mp splits
    exact List.find?_eq_none.mp attempt _ tried (fits_eq_true_iff.mpr ⟨u, left, accepts⟩)

/-- Otherwise it stands for what the first attempt that fits leaves. -/
theorem Consistent.first_of_some (consistent : lex.Consistent) (unregistered : lex.find? s = none)
    (attempt : lex.prefixes.attempts.find? (lex.fits s) = some (p, b)) : ∃ u, lex.First s b p u := by
  obtain ⟨u, left, accepts⟩ := fits_eq_true_iff.mp (List.find?_some attempt)
  refine ⟨u, ?_, ?_, fun c q v splits => ?_⟩
  · exact consistent.splits_iff.mpr ⟨List.mem_of_find?_eq_some attempt, left, accepts⟩
  · have reading : (lex.readings s).find? (fun r => r.unit.accepts r.scaling) = some ⟨u, p⟩ := by
      rw [find?_readings, attempt, Option.bind_some, left]
      rfl
    rw [resolve, unregistered]
    dsimp only
    rw [reading]
  · obtain ⟨tried, left', accepts'⟩ := consistent.splits_iff.mp splits
    obtain ⟨_, before, after, listing, unfit⟩ := List.find?_eq_some_iff_append.mp attempt
    have fit : lex.fits s (q, c) = true := fits_eq_true_iff.mpr ⟨v, left', accepts'⟩
    -- the other attempt fits too, so it is not among those before the first that does
    rw [listing] at tried
    rcases List.mem_append.mp tried with earlier | later
    · exact absurd fit (by simpa using unfit _ earlier)
    · rcases List.mem_cons.mp later with same | later
      · obtain ⟨rfl, rfl⟩ := Prod.mk.inj same
        rw [left'] at left
        exact .inl (by rw [Option.some.inj left])
      · have ordered := lex.prefixes.pairwise_attempts
        rw [listing] at ordered
        exact .inr ((List.pairwise_cons.mp (List.pairwise_append.mp ordered).2.1).1 _ later)

/-- A symbol that is not registered stands for the first way of taking it apart, if there is any. -/
theorem Consistent.exists_first (consistent : lex.Consistent)
    (unregistered : ∀ u ∈ lex.units.values, s ∉ u.symbols) :
    ((∃ e, lex.resolve s = .error e) ∧ ∀ b p u, ¬ lex.Splits s b p u) ∨
      ∃ b p u, lex.First s b p u := by
  have missing : lex.find? s = none := by
    cases found : lex.find? s with
    | none => rfl
    | some u =>
      obtain ⟨listed, own⟩ := consistent.find?_iff_listed.mp found
      exact absurd own (unregistered u listed)
  cases attempt : lex.prefixes.attempts.find? (lex.fits s) with
  | none => exact .inl (consistent.unsplit_of_none missing attempt)
  | some a => exact .inr ⟨a.2, a.1, consistent.first_of_some missing attempt⟩

/-! ### Registries of units and prefixes -/

variable [Scalar K]

/-- A call that changes a registry: which units are registered, or which prefixes there are. -/
inductive Edit (K : Type) where
  | units (call : Call K)
  | addPrefix (p : Prefix K)

/-- What a call does. -/
def Edit.action : Edit K → Action (Lexicon K) PUnit
  | units call => call.action
  | addPrefix p => do
    let lex ← get
    set { lex with prefixes := ← lex.prefixes.add p }

/-- The registry that a call leaves behind, also where it fails. -/
def Edit.after (lex : Lexicon K) (edit : Edit K) : Lexicon K := (edit.action.apply lex).2

/-- The registry after calls on one without units. -/
def edited (prefixes : PrefixTable K) (edits : List (Edit K)) : Lexicon K :=
  edits.foldl Edit.after (ofPrefixes prefixes)

/-- Each call keeps the tables of units in step. -/
theorem Edit.keepsStep (edit : Edit K) :
    edit.action.Keeps (fun lex => lex.Consistent ∧ lex.symbols.keys.Nodup) fun _ => True := by
  cases edit with
  | units call => exact call.keepsStep
  | addPrefix p =>
    refine .bind .get fun lex holds => .bind (.lift fun more added => added) fun more _ => ?_
    exact .set ⟨consistent_of_eq holds.1 rfl rfl, holds.2⟩

theorem consistent_edited (prefixes : PrefixTable K) (edits : List (Edit K)) :
    (edited prefixes edits).Consistent := by
  have run (lex : Lexicon K) (holds : lex.Consistent ∧ lex.symbols.keys.Nodup) :
      (edits.foldl Edit.after lex).Consistent := by
    induction edits generalizing lex with
    | nil => exact holds.1
    | cons edit rest ih => exact ih _ (edit.keepsStep.invariant holds)
  exact run _ ⟨consistent_ofPrefixes prefixes, List.nodup_nil⟩

/-- **What an unregistered symbol stands for.** In every registry that comes about by registering and
taking out units and adding prefixes, a symbol that is not registered is refused as unknown or as not
taking the prefix if it cannot be taken apart into a prefix and a unit that takes it. Otherwise it
stands for the prefix and the unit of one way of taking it apart, the first in the order of the
prefixes; and where each prefix has symbols of one length, no prefix that would do has a longer
one. -/
theorem resolve_unregistered (prefixes : PrefixTable K) (edits : List (Edit K)) (s : String)
    (unregistered : ∀ u ∈ (edited prefixes edits).units.values, s ∉ u.symbols) :
    ((∀ b p u, ¬ (edited prefixes edits).Splits s b p u) →
      ∃ e, (edited prefixes edits).resolve s = .error e ∧ e.kind = .meaning) ∧
    ((∃ b p u, (edited prefixes edits).Splits s b p u) →
      ∃ b p u, (edited prefixes edits).First s b p u) ∧
    ((∀ p ∈ (edited prefixes edits).prefixes.all,
        p.asciiSymbol.length = p.unicodeSymbol.length) →
      (∃ b p u, (edited prefixes edits).Splits s b p u) →
      ∃ b p u, (edited prefixes edits).Splits s b p u ∧
        (edited prefixes edits).resolve s = .ok (u, some p) ∧
        ∀ c q v, (edited prefixes edits).Splits s c q v → c.length ≤ b.length) := by
  have decided := (consistent_edited prefixes edits).exists_first unregistered
  have exists_first (splits : ∃ b p u, (edited prefixes edits).Splits s b p u) :
      ∃ b p u, (edited prefixes edits).First s b p u := by
    obtain ⟨b, p, u, splits⟩ := splits
    exact decided.resolve_left fun refused => refused.2 b p u splits
  refine ⟨fun unsplit => ?_, exists_first, fun even splits => ?_⟩
  · rcases decided with ⟨⟨e, failed⟩, _⟩ | ⟨b, p, u, first⟩
    · exact ⟨e, failed, kind_of_resolve failed⟩
    · exact absurd first.splits (unsplit b p u)
  · obtain ⟨b, p, u, first⟩ := exists_first splits
    have longest : b.length = p.reach := by
      rw [Prefix.reach_eq, ← even p first.splits.known, Nat.max_self]
      rcases first.splits.beginning with rfl | rfl
      · rfl
      · exact (even p first.splits.known).symm
    exact ⟨b, p, u, first.splits, first.resolved, fun c q v => first.longest longest⟩

omit [Scalar K] in
theorem splits_of_ascii (known : p ∈ lex.prefixes.all) (own : b ∈ p.symbols)
    (listed : u ∈ lex.units.values) (visible : u.asciiSymbol ≠ "") (accepts : u.accepts p = true) :
    lex.Splits (b ++ u.asciiSymbol) b p u :=
  ⟨known, Prefix.mem_symbols_iff.mp own, listed, ⟨_, visible, .inl rfl, rfl⟩, accepts⟩

/-- A length under the last two letters of `dam`. -/
def amp : NamedUnit ℚ where
  name := "amp"
  asciiSymbol := "am"
  unicodeSymbol := "am"
  alternateSymbol := none
  dimension := .ofAxis .length
  group := PrefixGroup.metric
  systems := []
  expansion := none
  expansionMultiplier := 1
  quantityType := none

/-- The SI units, with the amp after them. -/
def withAmp : Lexicon ℚ := edited Catalogue.prefixes [.units (.loadSystem .si), .units (.add amp)]

/-- Of a tenth of an amp and ten metres, `dam` stands for the metres. -/
theorem resolve_decametre : ∃ b p u, withAmp.Splits "dam" b p u ∧
    withAmp.resolve "dam" = .ok (u, some p) ∧ u.name = "metre" ∧ p.name = "deca" ∧
    ∀ c q v, withAmp.Splits "dam" c q v → c.length ≤ b.length := by
  have facts : (∃ p ∈ withAmp.prefixes.all, "d" ∈ p.symbols ∧ amp ∈ withAmp.units.values ∧
        amp.accepts p = true) ∧
      (withAmp.resolve "dam").map (fun r => (r.1.name, r.2.map (·.name)))
        = .ok ("metre", some "deca") ∧
      (∀ u ∈ withAmp.units.values, "dam" ∉ u.symbols) ∧
      ∀ p ∈ withAmp.prefixes.all, p.asciiSymbol.length = p.unicodeSymbol.length := by
    decide +kernel
  obtain ⟨⟨p, known, own, listed, accepts⟩, named, unregistered, even⟩ := facts
  have splits : withAmp.Splits "dam" "d" p amp :=
    splits_of_ascii known own listed (by decide) accepts
  unfold withAmp at unregistered even
  obtain ⟨b, q, u, chosen, resolved, longest⟩ := (resolve_unregistered Catalogue.prefixes
    [.units (.loadSystem .si), .units (.add amp)] "dam" unregistered).2.2
    even ⟨_, _, _, splits⟩
  rw [withAmp, resolved] at named
  obtain ⟨metre, deca⟩ := Prod.mk.inj (Except.ok.inj named)
  exact ⟨b, q, u, chosen, resolved, metre, Option.some.inj deca, longest⟩

/-- A prefix whose ASCII symbol is shorter than its Unicode symbol. -/
def dekka : Prefix ℚ := ⟨"dekka", "D", "Da", 10, PrefixGroup.largeMetric⟩

/-- The ASCII symbol of a prefix is tried before its longer Unicode symbol: `Dam` could be a `Da` and
an `m`, but stands for a `D` and an `am`. -/
theorem resolve_not_longest : ¬ ∀ (prefixes : PrefixTable ℚ) (edits : List (Edit ℚ)) (s : String),
    (∀ u ∈ (edited prefixes edits).units.values, s ∉ u.symbols) →
    (∃ b p u, (edited prefixes edits).Splits s b p u) →
    ∃ b p u, (edited prefixes edits).Splits s b p u ∧
      (edited prefixes edits).resolve s = .ok (u, some p) ∧
      ∀ c q v, (edited prefixes edits).Splits s c q v → c.length ≤ b.length := by
  intro longest
  let edits : List (Edit ℚ) := [.units (.loadSystem .si), .addPrefix dekka, .units (.add amp)]
  have facts : (edited Catalogue.prefixes edits).resolve "Dam" = .ok (amp, some dekka) ∧
      (∀ u ∈ (edited Catalogue.prefixes edits).units.values, "Dam" ∉ u.symbols) ∧
      dekka ∈ (edited Catalogue.prefixes edits).prefixes.all ∧
      ∃ m ∈ (edited Catalogue.prefixes edits).units.values,
        m.asciiSymbol = "m" ∧ m.accepts dekka = true := by decide +kernel
  obtain ⟨resolved, unregistered, known, m, listed, ascii, accepts⟩ := facts
  have own : "Da" ∈ dekka.symbols := by decide
  have splits := splits_of_ascii known own listed (by rw [ascii]; decide) accepts
  rw [ascii] at splits
  obtain ⟨b, p, u, chosen, same, most⟩ := longest Catalogue.prefixes edits "Dam" unregistered
    ⟨_, _, _, splits⟩
  rw [resolved] at same
  obtain ⟨rfl, alike⟩ := Prod.mk.inj (Except.ok.inj same)
  obtain rfl := Option.some.inj alike
  have long : "Da".length ≤ b.length := most _ _ _ splits
  obtain ⟨r, -, symbol, whole⟩ := chosen.rest
  obtain rfl : r = "am" := symbol.elim id id
  have short : "Dam".length = b.length + "am".length := by rw [whole, String.length_append]
  have : (2 : Nat) ≤ b.length := long
  have : (3 : Nat) = b.length + 2 := short
  omega

end Lexicon

end Metrology
