import Metrology.Proofs.Action
import Metrology.Proofs.Catalogue.Registered
import Metrology.Proofs.Register

/-!
# Consistency of the lexicon

Whatever units are registered and taken out, each unit is found under all of its symbols and under
no others, and is listed under its ASCII symbol. A unit that is taken out and registered again is
found as before, and so every text is read as before.
-/
namespace Metrology

variable {K : Type} [Scalar K]

/-- Units that say the same have the same symbols. -/
theorem NamedUnit.symbols_of_same {u v : NamedUnit K} (same : u.same v = true) :
    u.asciiSymbol = v.asciiSymbol ∧ u.symbols = v.symbols := by
  simp only [NamedUnit.same, Bool.and_eq_true, decide_eq_true_eq] at same
  obtain ⟨⟨⟨⟨⟨⟨⟨⟨⟨_, ascii⟩, _⟩, unicode⟩, alternate⟩, _⟩, _⟩, _⟩, _⟩, _⟩ := same
  exact ⟨ascii, by simp only [symbols, ascii, unicode, alternate]⟩

namespace Lexicon

variable {lex more : Lexicon K} {u : NamedUnit K}

/-- A unit is registered if every unit that has one of its symbols says the same. -/
theorem clash?_eq_none_iff : lex.clash? u = none ↔
    ∀ s ∈ u.symbols, ∀ v, lex.find? s = some v → v.same u = true := by
  rw [clash?, List.findSome?_eq_none_iff]
  refine forall₂_congr fun s _ => ?_
  cases lex.find? s with
  | none => simp
  | some v => simp

theorem same_of_add (added : lex.add u = .ok more) :
    ∀ s ∈ u.symbols, ∀ v, lex.find? s = some v → v.same u = true := by
  unfold add at added
  split at added
  next => cases added
  next free => exact clash?_eq_none_iff.mp free

theorem add_of_free (free : ∀ s ∈ u.symbols, lex.find? s = none) : ∃ more, lex.add u = .ok more := by
  have none : lex.clash? u = none := by
    refine clash?_eq_none_iff.mpr fun s mem v found => ?_
    rw [free s mem] at found
    cases found
  exact ⟨_, by rw [add, none]⟩

theorem units_add (added : lex.add u = .ok more) : more.units = lex.units.put u.asciiSymbol u := by
  unfold add at added
  split at added
  · cases added
  · obtain rfl := Except.ok.inj added
    rfl

omit [Scalar K] in
theorem find?_remove {symbol : String} (found : lex.find? symbol = some u) (s : String) :
    (lex.remove symbol).2.find? s = if s ∈ u.symbols then none else lex.find? s := by
  rw [remove, found]
  exact Register.get?_foldl_erase lex.symbols u.symbols s

omit [Scalar K] in
theorem units_remove {symbol : String} (found : lex.find? symbol = some u) :
    (lex.remove symbol).2.units = lex.units.erase u.asciiSymbol := by
  rw [remove, found]

omit [Scalar K] in
theorem prefixes_remove (lex : Lexicon K) (symbol : String) :
    (lex.remove symbol).2.prefixes = lex.prefixes := by
  unfold remove
  split <;> rfl

/-- Every unit is found under its own symbols and no others, and is listed once. -/
structure Consistent (lex : Lexicon K) : Prop where
  own : ∀ s u, lex.find? s = some u → s ∈ u.symbols
  complete : ∀ s u, lex.find? s = some u → ∀ t ∈ u.symbols, lex.find? t = some u
  listed : ∀ s u, lex.units.get? s = some u ↔ lex.find? s = some u ∧ u.asciiSymbol = s
  nodup : lex.units.keys.Nodup

omit [Scalar K] in
/-- Registered units have distinct ASCII symbols. -/
theorem Consistent.distinct (consistent : lex.Consistent) :
    (lex.units.values.map (·.asciiSymbol)).Nodup := by
  have keys : lex.units.values.map (·.asciiSymbol) = lex.units.keys := by
    rw [Register.values, Register.keys, List.map_map]
    refine List.map_congr_left fun row mem => ?_
    exact ((consistent.listed _ _).mp ((Register.mem_rows_iff consistent.nodup).mp mem)).2
  rw [keys]
  exact consistent.nodup

omit [Scalar K] in
theorem consistent_of_eq {lex' : Lexicon K} (consistent : lex.Consistent)
    (units : lex'.units = lex.units) (symbols : lex'.symbols = lex.symbols) : lex'.Consistent := by
  obtain ⟨_, _, _, _⟩ := lex'
  obtain rfl := units
  obtain rfl := symbols
  exact ⟨consistent.own, consistent.complete, consistent.listed, consistent.nodup⟩

omit [Scalar K] in
theorem consistent_ofPrefixes (t : PrefixTable K) : (ofPrefixes t).Consistent where
  own s u found := by cases found
  complete s u found := by cases found
  listed s u := ⟨fun found => (by cases found), fun found => (by cases found.1)⟩
  nodup := List.nodup_nil

theorem Consistent.add (consistent : lex.Consistent) (added : lex.add u = .ok more) :
    more.Consistent := by
  have same := same_of_add added
  -- a unit that shares a symbol with the newcomer has all of its symbols
  have shared : ∀ s v, lex.find? s = some v → ∀ t ∈ v.symbols, t ∈ u.symbols →
      v.asciiSymbol = u.asciiSymbol ∧ s ∈ u.symbols := by
    intro s v found t mem clash
    obtain ⟨ascii, symbols⟩ :=
      NamedUnit.symbols_of_same (same t clash v (consistent.complete s v found t mem))
    exact ⟨ascii, symbols ▸ consistent.own s v found⟩
  have asciiMem : u.asciiSymbol ∈ u.symbols := NamedUnit.mem_symbols u (.inl rfl)
  refine ⟨fun s v found => ?_, fun s v found t mem => ?_, fun s v => ?_, ?_⟩
  · rw [find?_add added] at found
    split at found
    next isOwn => exact Option.some.inj found ▸ isOwn
    next => exact consistent.own s v found
  · rw [find?_add added] at found ⊢
    split at found
    next isOwn =>
      obtain rfl := Option.some.inj found
      rw [if_pos mem]
    next other =>
      rw [if_neg fun clash => other (shared s v found t mem clash).2]
      exact consistent.complete s v found t mem
  · rw [units_add added, Register.get?_put, find?_add added]
    by_cases ascii : u.asciiSymbol = s
    · subst ascii
      simp only [if_true, asciiMem]
      exact ⟨fun same => ⟨same, Option.some.inj same ▸ rfl⟩, fun both => both.1⟩
    · rw [if_neg ascii, consistent.listed]
      by_cases isOwn : s ∈ u.symbols
      · rw [if_pos isOwn]
        constructor
        · rintro ⟨found, rfl⟩
          exact absurd (shared _ v found _ (consistent.own _ v found) isOwn).1.symm ascii
        · rintro ⟨is, rfl⟩
          exact absurd (Option.some.inj is ▸ rfl) ascii
      · rw [if_neg isOwn]
  · rw [units_add added]
    exact Register.nodup_keys_put consistent.nodup

omit [Scalar K] in
theorem Consistent.remove (consistent : lex.Consistent) (symbol : String) :
    (lex.remove symbol).2.Consistent := by
  cases found : lex.find? symbol with
  | none =>
    rw [Lexicon.remove, found]
    exact consistent
  | some u =>
    have all := consistent.complete symbol u found
    refine ⟨fun s v isFound => ?_, fun s v isFound t mem => ?_, fun s v => ?_, ?_⟩
    · rw [find?_remove found] at isFound
      split at isFound
      next => cases isFound
      next => exact consistent.own s v isFound
    · rw [find?_remove found] at isFound ⊢
      split at isFound
      next => cases isFound
      next other =>
        rw [if_neg, consistent.complete s v isFound t mem]
        intro gone
        have both := (consistent.complete s v isFound t mem).symm.trans (all t gone)
        obtain rfl := Option.some.inj both
        exact other (consistent.own s v isFound)
    · rw [units_remove found, Register.get?_erase, find?_remove found]
      by_cases ascii : u.asciiSymbol = s
      · subst ascii
        simp [NamedUnit.mem_symbols u (.inl rfl)]
      · rw [if_neg ascii, consistent.listed]
        by_cases gone : s ∈ u.symbols
        · rw [if_pos gone]
          constructor
          · rintro ⟨isFound, rfl⟩
            obtain rfl := Option.some.inj (isFound.symm.trans (all _ gone))
            exact absurd rfl ascii
          · rintro ⟨is, _⟩
            cases is
        · rw [if_neg gone]
    · rw [units_remove found]
      exact Register.nodup_keys_erase consistent.nodup

/-- Loading a system keeps the lexicon consistent, also where it fails halfway. -/
theorem keepsConsistent_loadSystem (system : MeasurementSystem) (p : PrefixTable K) :
    (loadSystem system).Keeps (fun lex => lex.Consistent ∧ lex.prefixes = p) fun _ => True :=
  keeps_loadSystem_of_add system
    (fun holds _ added => ⟨holds.1.add added, (prefixes_add added).trans holds.2⟩)
    fun _ holds => ⟨consistent_of_eq holds.1 rfl rfl, holds.2⟩

/-! ### Lexicons that read every text alike -/

omit [Scalar K] in
/-- A unit is found under the symbols of the units that are listed. -/
theorem Consistent.find?_eq_some_iff (consistent : lex.Consistent) {s : String} :
    lex.find? s = some u ↔ lex.units.get? u.asciiSymbol = some u ∧ s ∈ u.symbols := by
  rw [consistent.listed]
  constructor
  · intro found
    have ascii : u.asciiSymbol ∈ u.symbols := NamedUnit.mem_symbols u (.inl rfl)
    exact ⟨⟨consistent.complete s u found _ ascii, rfl⟩, consistent.own s u found⟩
  · rintro ⟨⟨found, _⟩, own⟩
    exact consistent.complete _ u found s own

omit [Scalar K] in
/-- Texts are read by what their symbols are found as. -/
theorem parse_of_find? {lex' : Lexicon K} (same : ∀ s, lex'.find? s = lex.find? s)
    (prefixes : lex'.prefixes = lex.prefixes) (text : String) : lex'.parse text = lex.parse text := by
  have readings (s : String) : lex'.readings s = lex.readings s := by
    simp only [readings, prefixes, scaledUnit?, same]
  have term (t : ParsedTerm) : lex'.term t = lex.term t := by
    simp only [Lexicon.term, resolve, same, readings]
  have terms : lex'.term = lex.term := funext term
  simp only [parse, terms]

omit [Scalar K] in
/-- Lexicons with the same units and prefixes read every text alike. -/
theorem Consistent.parse_eq {lex' : Lexicon K} (consistent : lex.Consistent)
    (consistent' : lex'.Consistent) (units : lex'.units = lex.units)
    (prefixes : lex'.prefixes = lex.prefixes) : lex'.parse = lex.parse := by
  funext text
  refine parse_of_find? (fun s => Option.ext fun u => ?_) prefixes text
  rw [consistent'.find?_eq_some_iff, consistent.find?_eq_some_iff, units]

/-- A unit that is taken out can be registered again, and texts are read as before. -/
theorem Consistent.add_remove (consistent : lex.Consistent) {symbol : String}
    (found : lex.find? symbol = some u) :
    ∃ more, (lex.remove symbol).2.add u = .ok more ∧ more.parse = lex.parse ∧
      more.units.rows.Perm lex.units.rows := by
  have free : ∀ s ∈ u.symbols, (lex.remove symbol).2.find? s = none := by
    intro s mem
    rw [find?_remove found, if_pos mem]
  obtain ⟨more, added⟩ := add_of_free free
  refine ⟨more, added, funext fun text => parse_of_find? (fun s => ?_) ?_ text, ?_⟩
  · rw [find?_add added, find?_remove found]
    split
    next own => exact (consistent.complete symbol u found s own).symm
    next => rfl
  · rw [prefixes_add added, prefixes_remove]
  · have asciiMem : u.asciiSymbol ∈ u.symbols := NamedUnit.mem_symbols u (.inl rfl)
    have listed : lex.units.get? u.asciiSymbol = some u :=
      (consistent.listed _ u).mpr ⟨consistent.complete symbol u found _ asciiMem, rfl⟩
    have gone : (lex.units.erase u.asciiSymbol).get? u.asciiSymbol = none := by simp
    rw [units_add added, units_remove found, Register.rows_put_of_fresh gone]
    exact Register.perm_erase_append consistent.nodup listed

/-- A unit that is registered again changes nothing that is read. -/
theorem Consistent.add_registered (consistent : lex.Consistent)
    (listed : lex.find? u.asciiSymbol = some u) (added : lex.add u = .ok more) :
    more.units = lex.units ∧ more.parse = lex.parse := by
  have all := consistent.complete u.asciiSymbol u listed
  refine ⟨?_, funext (parse_of_find? (fun s => ?_) (prefixes_add added))⟩
  · rw [units_add added]
    exact Register.put_of_get? ((consistent.listed _ u).mpr ⟨listed, rfl⟩)
  · rw [find?_add added]
    split
    next own => exact (all s own).symm
    next => rfl

/-- A new unit that is taken out again leaves the units as they were. -/
theorem Consistent.remove_added (consistent : lex.Consistent)
    (fresh : lex.find? u.asciiSymbol = none) (added : lex.add u = .ok more) {symbol : String}
    (own : symbol ∈ u.symbols) : (more.remove symbol).2.units = lex.units ∧
      (more.remove symbol).2.parse = lex.parse := by
  have found : more.find? symbol = some u := by rw [find?_add added, if_pos own]
  have unlisted : lex.units.get? u.asciiSymbol = none := by
    cases listed : lex.units.get? u.asciiSymbol with
    | none => rfl
    | some v => exact nomatch fresh.symm.trans ((consistent.listed _ v).mp listed).1
  -- a unit with one of the symbols would say the same, and so have the ASCII symbol
  have free : ∀ s ∈ u.symbols, lex.find? s = none := by
    intro s mem
    cases taken : lex.find? s with
    | none => rfl
    | some v =>
      have ascii := (NamedUnit.symbols_of_same (same_of_add added s mem v taken)).1
      have listed := consistent.complete s v taken _ (v.mem_symbols (.inl rfl))
      rw [ascii, fresh] at listed
      cases listed
  refine ⟨?_, funext (parse_of_find? (fun s => ?_) ?_)⟩
  · rw [units_remove found, units_add added]
    exact Register.erase_put_of_fresh unlisted
  · rw [find?_remove found, find?_add added]
    split
    next mem => exact (free s mem).symm
    next => rfl
  · rw [prefixes_remove, prefixes_add added]

end Lexicon

namespace Session

theorem consistent_ofSystems {systems : List MeasurementSystem} {s : Session K}
    (made : ofSystems systems = .ok s) :
    s.lexicon.Consistent ∧ s.lexicon.prefixes = Catalogue.prefixes :=
  kept_ofSystems (I := fun s => s.lexicon.Consistent ∧ s.lexicon.prefixes = Catalogue.prefixes)
    ⟨Lexicon.consistent_ofPrefixes _, Lexicon.prefixes_ofPrefixes _⟩
    (fun system => .onPart (fun _ holds => holds) (fun _ _ _ holds => holds)
      (Lexicon.keepsConsistent_loadSystem system _)) made

end Session

end Metrology
