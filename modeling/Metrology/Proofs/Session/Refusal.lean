import Metrology.Proofs.Catalogue.Loading
import Metrology.Proofs.Session.NonZero

/-!
# Refused changes of units

A unit that cannot be registered changes nothing, and taking units out is never refused. The units of
a system are registered one after the other: a loading that stops at a unit leaves those before it
registered, while the edges and all that is remembered stay as they were without them.
-/
namespace Metrology

variable {K : Type} [Scalar K]

namespace Session

variable {s : Session K} {e : Error}

/-- The change is one of units. -/
def Change.ofUnits : Change K → Bool
  | addUnit _ | removeUnit _ | loadSystem _ => true
  | addConversion _ _ _ | removeConversion _ _ => false

/-- A loading of a system stopped at a unit that cannot be registered: the tabled units before it
stay registered, the system is not noted as loaded, and nothing else is changed. Dimensions whose
edges had been built keep these edges. -/
structure Halted (system : MeasurementSystem) (new : List (NamedUnit K)) (before : Session K)
    (e : Error) (after : Session K) : Prop where
  stop : ∃ rows row rest, Catalogue.units = rows ++ row :: rest ∧
    Lexicon.Extended system rows new before.lexicon after.lexicon ∧
    row.2.systems.contains system = true ∧ after.lexicon.units.contains row.2.asciiSymbol = false ∧
    after.lexicon.addRow row = .error e
  frame : after = { before with lexicon := after.lexicon }
  built : ∀ d, before.store.built.contains d = true → registered after d = registered before d

theorem Halted.unchanged_iff {system : MeasurementSystem} {new : List (NamedUnit K)}
    {before after : Session K} (halted : Halted system new before e after) :
    after = before ↔ new = [] := by
  obtain ⟨⟨rows, row, rest, _, extended, _⟩, frame, _⟩ := halted
  constructor
  · rintro rfl
    simpa using extended.units
  · intro none
    rw [frame, extended.unchanged none]

theorem registered_of_built {t : Session K} {d : Dimension} (store : t.store = s.store)
    (built : s.store.built.contains d = true) : registered t d = registered s d := by
  rw [registered, registered, EdgeStore.current_eq, EdgeStore.current_eq, store, if_pos built,
    if_pos built]

theorem consistent_loadSystem (consistent : s.lexicon.Consistent) (system : MeasurementSystem) :
    ((Lexicon.loadSystem system).apply s.lexicon).2.Consistent :=
  ((Lexicon.keepsConsistent_loadSystem system s.lexicon.prefixes).invariant ⟨consistent, rfl⟩).1

theorem consistent_change (consistent : s.lexicon.Consistent) (c : Change K) :
    (c.action.apply s).2.lexicon.Consistent := by
  have run := c.comesTo s
  generalize c.action.apply s = outcome at run ⊢
  cases run with
  | unitRefused | edgeRefused | edgeAdded | removalRefused | edgeRemoved => exact consistent
  | unitAdded added => exact consistent.add added
  | unitRemoved symbol => exact consistent.remove symbol
  | @systemHalted system e lex loading | @systemLoaded system n lex loading =>
    have kept := consistent_loadSystem consistent system
    rw [loading] at kept
    exact kept

/-- Every operation keeps the lexicon consistent, whether it succeeds or not. -/
theorem consistent_operation (consistent : s.lexicon.Consistent) (operation : Operation K) :
    (operation.after s).lexicon.Consistent := by
  match operation with
  | .step .reload | .registerConversion _ _ _ | .unregisterConversion _ _ | .addType _ | .forget =>
    exact consistent
  | .step (.deed (.ask q)) =>
    show (q.after s).lexicon.Consistent
    rw [lexicon_ask]
    exact consistent
  | .step (.deed (.change c)) => exact consistent_change consistent c
  | .registerUnit u =>
    rw [Operation.after, registerUnit_apply]
    cases added : s.lexicon.add u with
    | error e => exact consistent
    | ok lex => exact consistent.add added
  | .unregisterUnit symbol => exact consistent.remove symbol
  | .registerSystem system =>
    rw [Operation.after, apply_onLexicon]
    exact consistent_loadSystem consistent system
  | .addPrefix p =>
    rw [Operation.after, addPrefix_apply]
    cases s.lexicon.prefixes.add p with
    | error e => exact consistent
    | ok table => exact Lexicon.consistent_of_eq consistent rfl rfl

theorem consistent_operated (consistent : s.lexicon.Consistent) (operations : List (Operation K)) :
    (operated operations s).lexicon.Consistent := by
  induction operations generalizing s with
  | nil => exact consistent
  | cons operation rest ih => exact ih (consistent_operation consistent operation)

theorem halted_of_loading (consistent : s.lexicon.Consistent) {system : MeasurementSystem}
    {lex : Lexicon K} (loading : (Lexicon.loadSystem system).apply s.lexicon = (.error e, lex)) :
    ∃ new, Halted system new s e { s with lexicon := lex } := by
  rw [Lexicon.loadSystem, Action.apply_bind] at loading
  rcases rows : (Lexicon.loadRows system Catalogue.units).apply s.lexicon with ⟨e' | m, lex'⟩
  · rw [rows] at loading
    obtain ⟨same, rfl⟩ := Prod.mk.inj loading
    obtain rfl := Except.error.inj same
    obtain ⟨before, row, rest, n, split, passed, belongs, free, stops⟩ := Lexicon.loadRows_stops rows
    obtain ⟨new, _, extended⟩ := consistent.extended_of_loadRows passed
    exact ⟨new, ⟨before, row, rest, split, extended, belongs, free, stops⟩, rfl,
      fun d built => registered_of_built rfl built⟩
  · rw [rows] at loading
    cases (Prod.mk.inj loading).1

/-- **What a refused change of units leaves behind**, whatever was done with the session before.
Registering a unit leaves everything as it was, and taking one out is not refused. A loading leaves
everything as it was exactly if no unit of the system was registered before the one at which it
stopped. -/
theorem refused_change_of_units {systems : List MeasurementSystem} {made : Session K}
    (isMade : ofSystems systems = .ok made) (operations : List (Operation K)) {c : Change K}
    (ofUnits : c.ofUnits = true)
    (refused : (c.action.apply (operated operations made)).1 = .error e) :
    let before := operated operations made
    let after := (c.action.apply before).2
    (∃ u, c = .addUnit u ∧ before.lexicon.add u = .error e ∧ after = before) ∨
    ∃ system new, c = .loadSystem system ∧ Halted system new before e after ∧
      (after = before ↔ new = []) := by
  intro before after
  have consistent : before.lexicon.Consistent :=
    consistent_operated (consistent_ofSystems isMade).1 operations
  have run := c.comesTo before
  have left : after = (c.action.apply before).2 := rfl
  replace refused : (c.action.apply before).1 = .error e := refused
  clear_value after
  generalize c.action.apply before = outcome at run refused left
  subst left
  cases run with
  | @unitRefused u e' added =>
    obtain rfl := Except.error.inj refused
    exact .inl ⟨u, rfl, added, rfl⟩
  | @systemHalted system e' lex loading =>
    obtain rfl := Except.error.inj refused
    obtain ⟨new, halted⟩ := halted_of_loading consistent loading
    exact .inr ⟨system, new, rfl, halted, halted.unchanged_iff⟩
  | unitAdded | unitRemoved | systemLoaded => cases refused
  | edgeRefused | edgeAdded | removalRefused | edgeRemoved => cases ofUnits

/-- A session with typographic units, and a length under the symbol of the foot. -/
def crowding : List (Operation ℚ) := [.step (.deed (.change (.addUnit squatter)))]

/-- The US units before the foot stay registered when their loading stops there. -/
theorem squatter_halts_loading :
    ∃ new, new ≠ [] ∧ Halted .us new (operated crowding typographer)
      (.symbolTaken "ft" "foot" "Mine")
      ((Change.loadSystem .us).action.apply (operated crowding typographer)).2 := by
  have refused : ((Change.loadSystem .us).action.apply (operated crowding typographer)).1 =
      .error (.symbolTaken "ft" "foot" "Mine") := by decide +kernel
  have more : ((Change.loadSystem .us).action.apply
      (operated crowding typographer)).2.lexicon.units.size ≠
      (operated crowding typographer).lexicon.units.size := by decide +kernel
  rcases refused_change_of_units ofSystems_typographer crowding rfl refused with
    ⟨_, isAdding, _⟩ | ⟨system, new, isLoading, halted, unchanged⟩
  · cases isAdding
  · obtain rfl := Change.loadSystem.inj isLoading
    refine ⟨new, fun none => more ?_, halted⟩
    rw [unchanged.mpr none]

/-- A loading that fails shows: units are registered that were not, and a question about them that
failed before it is answered after it. -/
theorem halted_loading_shows :
    let before := operated crowding typographer
    let after := ((loadSystem .us).apply before).2
    ((loadSystem .us).apply before).1 = .error (.symbolTaken "ft" "foot" "Mine") ∧
    before.lexicon.contains "lb" = false ∧ after.lexicon.contains "lb" = true ∧
    ((conversion (.symbol "lb") (.symbol "oz")).apply before).1 = .error (.unknownUnit "lb") ∧
    ((conversion (.symbol "lb") (.symbol "oz")).apply after).1.toOption.join =
      some ⟨"M", "lb", "oz", ⟨16, 0⟩⟩ := by
  decide +kernel

end Session

end Metrology
