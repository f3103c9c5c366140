import Metrology.Proofs.Catalogue.Consistency

/-!
# The two tables of a lexicon

A lexicon lists its units under their ASCII symbols and finds them under all of their symbols. The
calls that write these tables keep them in step, whether they succeed or fail: the rows of the second
table are the symbols of the units in the first, and nothing else.
-/
namespace Metrology.Lexicon

variable {K : Type} {lex more : Lexicon K} {u : NamedUnit K}

/-- The table of symbols holds the symbols of the listed units, each for one unit, and each unit is
listed once, under its ASCII symbol. A symbol of a listed unit stands for that unit without a
prefix. -/
structure Represented (lex : Lexicon K) : Prop where
  pairs : ∀ s u, (s, u) ∈ lex.symbols.rows ↔ u ∈ lex.units.values ∧ s ∈ u.symbols
  single : lex.symbols.keys.Nodup
  apart : ∀ u ∈ lex.units.values, ∀ v ∈ lex.units.values, ∀ s ∈ u.symbols, s ∈ v.symbols → u = v
  once : lex.units.keys.Nodup
  ascii : lex.units.rows = lex.units.values.map fun u => (u.asciiSymbol, u)
  resolved : ∀ u ∈ lex.units.values, ∀ s ∈ u.symbols, lex.resolve s = .ok (u, none)

/-- A unit is listed where it is found under its ASCII symbol. -/
theorem Consistent.mem_values_iff (consistent : lex.Consistent) :
    u ∈ lex.units.values ↔ lex.units.get? u.asciiSymbol = some u := by
  constructor
  · intro mem
    obtain ⟨⟨k, v⟩, row, rfl⟩ := List.mem_map.mp mem
    have listed := (Register.mem_rows_iff consistent.nodup).mp row
    obtain ⟨_, ascii⟩ := (consistent.listed k v).mp listed
    rwa [← ascii] at listed
  · intro listed
    exact List.mem_map.mpr ⟨_, Register.mem_rows_of_get? listed, rfl⟩

/-- The symbol that a unit is found under is one of the symbols of a listed unit. -/
theorem Consistent.find?_iff_listed (consistent : lex.Consistent) {s : String} :
    lex.find? s = some u ↔ u ∈ lex.units.values ∧ s ∈ u.symbols := by
  rw [consistent.find?_eq_some_iff, consistent.mem_values_iff]

theorem Consistent.represented (consistent : lex.Consistent) (single : lex.symbols.keys.Nodup) :
    lex.Represented where
  pairs s u := (Register.mem_rows_iff single).trans consistent.find?_iff_listed
  single := single
  apart u listed v listed' s own own' := by
    have found := consistent.find?_iff_listed.mpr ⟨listed, own⟩
    have found' := consistent.find?_iff_listed.mpr ⟨listed', own'⟩
    exact Option.some.inj (found.symm.trans found')
  once := consistent.nodup
  ascii := by
    rw [Register.values, List.map_map]
    refine (List.map_id _).symm.trans (List.map_congr_left fun row mem => ?_)
    have listed := (Register.mem_rows_iff consistent.nodup).mp mem
    exact Prod.ext ((consistent.listed _ _).mp listed).2.symm rfl
  resolved u listed s own := by
    rw [resolve, consistent.find?_iff_listed.mpr ⟨listed, own⟩]

variable [Scalar K]

/-- The unit was put in the place of the one listed under its ASCII symbol, or behind all others, and
is found under all of its symbols. -/
structure Stores (u : NamedUnit K) (lex more : Lexicon K) : Prop where
  units : more.units = lex.units.put u.asciiSymbol u
  found : ∀ s, more.find? s = if s ∈ u.symbols then some u else lex.find? s
  prefixes : more.prefixes = lex.prefixes
  systems : more.systems = lex.systems

/-- A call that changes which units are registered. -/
inductive Call (K : Type) where
  | add (u : NamedUnit K)
  | remove (symbol : String)
  | loadSystem (system : MeasurementSystem)

/-- What a call does. -/
def Call.action : Call K → Action (Lexicon K) PUnit
  | add u => do set (← (← get).add u)
  | remove symbol => modify fun lex => (lex.remove symbol).2
  | loadSystem system => do
    let _ ← Lexicon.loadSystem system
    return ⟨⟩

/-- The lexicon that a call leaves behind, also where it fails. -/
def Call.after (lex : Lexicon K) (call : Call K) : Lexicon K := (call.action.apply lex).2

/-- The lexicon after calls on one without units. -/
def called (prefixes : PrefixTable K) (calls : List (Call K)) : Lexicon K :=
  calls.foldl Call.after (ofPrefixes prefixes)

theorem single_add (single : lex.symbols.keys.Nodup) (added : lex.add u = .ok more) :
    more.symbols.keys.Nodup := by
  unfold add at added
  split at added
  next => cases added
  next =>
    obtain rfl := Except.ok.inj added
    exact Register.nodup_keys_putAll single

omit [Scalar K] in
theorem single_remove (single : lex.symbols.keys.Nodup) (symbol : String) :
    (lex.remove symbol).2.symbols.keys.Nodup := by
  unfold remove
  split
  next => exact single
  next => exact Register.nodup_keys_foldl_erase single

/-- Each call keeps the tables in step. -/
theorem Call.keepsStep (call : Call K) :
    call.action.Keeps (fun lex => lex.Consistent ∧ lex.symbols.keys.Nodup) fun _ => True := by
  cases call with
  | add u =>
    refine .bind .get fun lex holds => .bind (.lift fun more added => added) fun more added => ?_
    exact .set ⟨holds.1.add added, single_add holds.2 added⟩
  | remove symbol =>
    exact .modify fun lex holds => ⟨holds.1.remove symbol, single_remove holds.2 symbol⟩
  | loadSystem system =>
    refine .bind (keeps_loadSystem_of_add system (fun holds _ added => ?_) fun _ holds => ?_)
      fun _ _ => .pure trivial
    · exact ⟨holds.1.add added, single_add holds.2 added⟩
    · exact ⟨consistent_of_eq holds.1 rfl rfl, holds.2⟩

/-- Whatever was called, the tables are in step. -/
theorem consistent_called (prefixes : PrefixTable K) (calls : List (Call K)) :
    (called prefixes calls).Consistent ∧ (called prefixes calls).symbols.keys.Nodup := by
  have run (lex : Lexicon K) (holds : lex.Consistent ∧ lex.symbols.keys.Nodup) :
      (calls.foldl Call.after lex).Consistent ∧
        (calls.foldl Call.after lex).symbols.keys.Nodup := by
    induction calls generalizing lex with
    | nil => exact holds
    | cons call rest ih => exact ih _ (call.keepsStep.invariant holds)
  exact run _ ⟨consistent_ofPrefixes prefixes, List.nodup_nil⟩

theorem add_apply (u : NamedUnit K) (lex : Lexicon K) :
    (Call.add u).action.apply lex =
      match lex.add u with
      | .ok more => (.ok ⟨⟩, more)
      | .error e => (.error e, lex) := by
  rw [Call.action, Action.apply_bind, Action.apply_get]
  dsimp only
  rw [Action.apply_bind, Action.apply_lift]
  cases lex.add u <;> rfl

theorem stores_add (added : lex.add u = .ok more) : Stores u lex more where
  units := units_add added
  found := find?_add added
  prefixes := prefixes_add added
  systems := systems_add added

/-- A unit is refused for a symbol of its own that belongs to a different unit. -/
theorem clash_of_add {e : Error} (refused : lex.add u = .error e) :
    ∃ s ∈ u.symbols, ∃ v, lex.find? s = some v ∧ v.same u = false ∧
      e = .symbolTaken s u.name v.name := by
  unfold add at refused
  split at refused
  next s v clash =>
    obtain rfl := Except.error.inj refused
    obtain ⟨t, own, at_t⟩ := List.exists_of_findSome?_eq_some clash
    split at at_t
    next w found =>
      split at at_t
      next => cases at_t
      next different =>
        obtain ⟨rfl, rfl⟩ := Prod.mk.inj (Option.some.inj at_t)
        exact ⟨t, own, w, found, Bool.not_eq_true _ ▸ different, rfl⟩
    next => cases at_t
  next => cases refused

/-- Whatever units were registered, taken out and loaded, the two tables of the lexicon represent the
listed units. The next unit is stored under all of its symbols, or it has a symbol of a different
unit, is refused for that and changes nothing. -/
theorem called_represented (prefixes : PrefixTable K) (calls : List (Call K)) :
    (called prefixes calls).Represented ∧ ∀ u : NamedUnit K,
      (∃ more, (Call.add u).action.apply (called prefixes calls) = (.ok ⟨⟩, more) ∧
        Stores u (called prefixes calls) more ∧
        ∀ v ∈ (called prefixes calls).units.values, ∀ s ∈ v.symbols, s ∈ u.symbols →
          v.same u = true) ∨
      ∃ s ∈ u.symbols, ∃ v ∈ (called prefixes calls).units.values, s ∈ v.symbols ∧
        v.same u = false ∧ (Call.add u).action.apply (called prefixes calls) =
          (.error (.symbolTaken s u.name v.name), called prefixes calls) := by
  obtain ⟨consistent, single⟩ := consistent_called prefixes calls
  refine ⟨consistent.represented single, fun u => ?_⟩
  rw [add_apply]
  cases outcome : (called prefixes calls).add u with
  | ok more =>
    refine .inl ⟨more, rfl, stores_add outcome, fun v listed s own shared => ?_⟩
    exact same_of_add outcome s shared v (consistent.find?_iff_listed.mpr ⟨listed, own⟩)
  | error e =>
    obtain ⟨s, own, v, found, different, rfl⟩ := clash_of_add outcome
    obtain ⟨listed, theirs⟩ := consistent.find?_iff_listed.mp found
    exact .inr ⟨s, own, v, listed, theirs, different, rfl⟩

end Metrology.Lexicon
