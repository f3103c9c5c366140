import Metrology.Proofs.Catalogue.Representation
import Metrology.Proofs.ExactNumber

/-!
# Loading a system

The units of a system are registered row by row. A row whose ASCII symbol is taken is passed over,
whichever unit has it, and a loading stops at a row that has another symbol taken by a different unit.
So a loading that does not stop registers each tabled unit of its system, except where a different
unit was registered under the same ASCII symbol.
-/
namespace Metrology

variable {K : Type} [Scalar K]

namespace Lexicon

/-- The row declares a unit of the system. -/
def Lists (system : MeasurementSystem) (rows : List (Catalogue.QuantityRow × Catalogue.UnitRow))
    (u : NamedUnit K) : Prop :=
  ∃ row ∈ rows, row.2.systems.contains system = true ∧
    NamedUnit.declare (row.2.declaration row.1) = .ok u

/-- Registers the unit that a row declares. -/
def addRow (lex : Lexicon K) (row : Catalogue.QuantityRow × Catalogue.UnitRow) :
    Except Error (Lexicon K) := do
  lex.add (← NamedUnit.declare (row.2.declaration row.1))

/-- Units were appended to the registered ones, each a unit of the rows. Every symbol that was in use
is still found as the same unit. -/
structure Extended (system : MeasurementSystem)
    (rows : List (Catalogue.QuantityRow × Catalogue.UnitRow)) (new : List (NamedUnit K))
    (lex more : Lexicon K) : Prop where
  units : more.units.rows = lex.units.rows ++ new.map fun u => (u.asciiSymbol, u)
  listed : ∀ u ∈ new, Lists system rows u
  found : ∀ s u, lex.find? s = some u → more.find? s = some u
  prefixes : more.prefixes = lex.prefixes
  systems : more.systems = lex.systems
  unchanged : new = [] → more = lex

variable {system : MeasurementSystem} {lex more : Lexicon K} {u : NamedUnit K} {e : Error}

/-- A unit whose ASCII symbol is free takes no symbol from another. -/
theorem Consistent.found_of_add (consistent : lex.Consistent)
    (free : lex.units.contains u.asciiSymbol = false) (added : lex.add u = .ok more) {s : String}
    {v : NamedUnit K} (found : lex.find? s = some v) : more.find? s = some v := by
  rw [find?_add added]
  split
  next own =>
    have ascii := (NamedUnit.symbols_of_same (same_of_add added s own v found)).1
    have listed : lex.units.get? v.asciiSymbol = some v :=
      (consistent.find?_eq_some_iff.mp found).1
    rw [ascii] at listed
    simp [Register.contains, listed] at free
  next => exact found

theorem asciiSymbol_of_declare {d : UnitDeclaration K} (declared : NamedUnit.declare d = .ok u) :
    u.asciiSymbol = d.asciiSymbol := by
  obtain ⟨dimension, _, rest⟩ := bind_eq_ok.mp declared
  split at rest
  · cases rest
  · obtain rfl := Except.ok.inj rest
    rfl

/-- What a step of a loading does: a row that does not belong to the system or whose ASCII symbol is
taken is passed over, any other row is registered or the loading stops. -/
theorem loadRows_cons (row : Catalogue.QuantityRow × Catalogue.UnitRow)
    (rest : List (Catalogue.QuantityRow × Catalogue.UnitRow)) (lex : Lexicon K) :
    (loadRows system (row :: rest)).apply lex =
      if row.2.systems.contains system && !lex.units.contains row.2.asciiSymbol then
        match lex.addRow row with
        | .ok more =>
          (((loadRows system rest).apply more).1.map (· + 1), ((loadRows system rest).apply more).2)
        | .error e => (.error e, lex)
      else (loadRows system rest).apply lex := by
  rw [loadRows, Action.apply_bind, Action.apply_get]
  dsimp only
  split
  next =>
    rw [Action.apply_bind, Action.apply_lift, addRow]
    cases (NamedUnit.declare (row.2.declaration row.1) : Except Error (NamedUnit K)) with
    | error e => rfl
    | ok u =>
      dsimp only
      rw [Action.apply_bind, Action.apply_lift]
      show _ = match lex.add u with | .ok more => _ | .error e => _
      cases lex.add u with
      | error e => rfl
      | ok more =>
        dsimp only
        rw [Action.apply_bind, Action.apply_set]
        dsimp only
        rw [Action.apply_bind]
        rcases (loadRows system rest).apply more with ⟨_ | _, last⟩ <;> rfl
  next => rfl

theorem Consistent.extended_of_loadRows (consistent : lex.Consistent)
    {rows : List (Catalogue.QuantityRow × Catalogue.UnitRow)} {n : Nat}
    (run : (loadRows system rows).apply lex = (.ok n, more)) :
    ∃ new, new.length = n ∧ Extended system rows new lex more := by
  induction rows generalizing lex n with
  | nil =>
    obtain ⟨same, rfl⟩ := Prod.mk.inj run
    obtain rfl := Except.ok.inj same
    exact ⟨[], rfl, by simp, by simp, fun _ _ found => found, rfl, rfl, fun _ => rfl⟩
  | cons row rest ih =>
    have wider {v : NamedUnit K} (listed : Lists system rest v) : Lists system (row :: rest) v := by
      obtain ⟨r, mem, own⟩ := listed
      exact ⟨r, List.mem_cons_of_mem _ mem, own⟩
    rw [loadRows_cons] at run
    split at run
    next chosen =>
      obtain ⟨belongs, free⟩ := Bool.and_eq_true_iff.mp chosen
      split at run
      next mid made =>
        obtain ⟨u, declared, added⟩ := bind_eq_ok.mp made
        rcases later : (loadRows system rest).apply mid with ⟨_ | m, last⟩
        · simp [later, Except.map] at run
        · simp only [later, Except.map, Prod.mk.injEq, Except.ok.injEq] at run
          obtain ⟨rfl, rfl⟩ := run
          obtain ⟨new, length, extended⟩ := ih (consistent.add added) later
          have ascii := asciiSymbol_of_declare declared
          have isFree : lex.units.contains u.asciiSymbol = false := by
            rw [ascii]
            exact Bool.not_eq_true' _ ▸ free
          have fresh : lex.units.get? u.asciiSymbol = none := by
            simpa [Register.contains] using isFree
          refine ⟨u :: new, by simp [length], ?_, ?_, ?_, ?_, ?_, by simp⟩
          · rw [extended.units, units_add added, Register.rows_put_of_fresh fresh]
            simp
          · rintro v (_ | ⟨_, later⟩)
            · exact ⟨row, List.mem_cons_self, belongs, declared⟩
            · exact wider (extended.listed v later)
          · exact fun s v found => extended.found s v (consistent.found_of_add isFree added found)
          · rw [extended.prefixes, prefixes_add added]
          · rw [extended.systems, systems_add added]
      next => cases (Prod.mk.inj run).1
    next =>
      obtain ⟨new, length, extended⟩ := ih consistent run
      exact ⟨new, length, extended.units, fun v mem => wider (extended.listed v mem),
        extended.found, extended.prefixes, extended.systems, extended.unchanged⟩

/-- A loading that fails has registered the rows before the one at which it stops. -/
theorem loadRows_stops {rows : List (Catalogue.QuantityRow × Catalogue.UnitRow)}
    (run : (loadRows system rows).apply lex = (.error e, more)) :
    ∃ before row rest n, rows = before ++ row :: rest ∧
      (loadRows system before).apply lex = (.ok n, more) ∧
      row.2.systems.contains system = true ∧ more.units.contains row.2.asciiSymbol = false ∧
      more.addRow row = .error e := by
  induction rows generalizing lex with
  | nil => cases (Prod.mk.inj run).1
  | cons row rest ih =>
    rw [loadRows_cons] at run
    split at run
    next chosen =>
      split at run
      next mid made =>
        rcases later : (loadRows system rest).apply mid with ⟨e' | m, last⟩
        · simp only [later, Except.map, Prod.mk.injEq, Except.error.injEq] at run
          obtain ⟨rfl, rfl⟩ := run
          obtain ⟨before, stop, after, n, rfl, passed, belongs, free, refused⟩ := ih later
          refine ⟨row :: before, stop, after, n + 1, rfl, ?_, belongs, free, refused⟩
          rw [loadRows_cons, if_pos chosen, made]
          simp [passed, Except.map]
        · simp [later, Except.map] at run
      next e' refused =>
        obtain ⟨same, rfl⟩ := Prod.mk.inj run
        obtain rfl := Except.error.inj same
        obtain ⟨belongs, free⟩ := Bool.and_eq_true_iff.mp chosen
        exact ⟨[], row, rest, 0, rfl, rfl, belongs, by simpa using free, refused⟩
    next passedOver =>
      obtain ⟨before, stop, after, n, rfl, passed, belongs, free, refused⟩ := ih run
      refine ⟨row :: before, stop, after, n, rfl, ?_, belongs, free, refused⟩
      rw [loadRows_cons, if_neg passedOver, passed]

/-! ### Loadings that do not stop -/

theorem Extended.keeps {new : List (NamedUnit K)}
    {rows : List (Catalogue.QuantityRow × Catalogue.UnitRow)}
    (extended : Extended system rows new lex more) {k : String} (listed : lex.units.get? k = some u) :
    more.units.get? k = some u :=
  Register.get?_of_append extended.units listed

/-- A row of the system had its ASCII symbol taken when it was reached, or was registered. Either way
the symbol is taken in the end. -/
theorem Consistent.taken_of_loadRows (consistent : lex.Consistent)
    {rows : List (Catalogue.QuantityRow × Catalogue.UnitRow)} {n : Nat}
    (run : (loadRows system rows).apply lex = (.ok n, more)) :
    ∀ row ∈ rows, row.2.systems.contains system = true →
      ∃ v, more.units.get? row.2.asciiSymbol = some v := by
  induction rows generalizing lex n with
  | nil => exact fun row mem => absurd mem List.not_mem_nil
  | cons row rest ih =>
    rw [loadRows_cons] at run
    split at run
    next =>
      split at run
      next mid made =>
        obtain ⟨u, declared, added⟩ := bind_eq_ok.mp made
        rcases later : (loadRows system rest).apply mid with ⟨_ | m, last⟩
        · simp [later, Except.map] at run
        · obtain ⟨_, rfl⟩ := Prod.mk.inj (later ▸ run)
          obtain ⟨new, _, extended⟩ := (consistent.add added).extended_of_loadRows later
          rintro r (_ | ⟨_, mem⟩) belongs
          · refine ⟨u, extended.keeps ?_⟩
            rw [units_add added, asciiSymbol_of_declare declared]
            exact Register.get?_put_self _ _ _
          · exact ih (consistent.add added) later r mem belongs
      next => cases (Prod.mk.inj run).1
    next passedOver =>
      obtain ⟨new, _, extended⟩ := consistent.extended_of_loadRows run
      rintro r (_ | ⟨_, mem⟩) belongs
      · have taken : lex.units.contains row.2.asciiSymbol = true := by
          rw [belongs, Bool.true_and] at passedOver
          simpa using passedOver
        obtain ⟨v, listed⟩ := Option.isSome_iff_exists.mp taken
        exact ⟨v, extended.keeps listed⟩
      · exact ih consistent run r mem belongs

/-- The unit is registered: it is listed under its ASCII symbol and found under all of its symbols. -/
def Holds (lex : Lexicon K) (u : NamedUnit K) : Prop :=
  lex.units.get? u.asciiSymbol = some u ∧ ∀ s ∈ u.symbols, lex.find? s = some u

omit [Scalar K] in
theorem Consistent.holds_iff (consistent : lex.Consistent) :
    lex.Holds u ↔ lex.units.get? u.asciiSymbol = some u :=
  ⟨And.left, fun listed => ⟨listed, fun _ own => consistent.find?_eq_some_iff.mpr ⟨listed, own⟩⟩⟩

/-- A system was loaded: the units that were registered stay, in their places, and as many follow as
the loading gave, each a tabled unit of the system. A tabled unit of the system is registered unless
its ASCII symbol belonged to a different unit. -/
structure Loaded (system : MeasurementSystem) (n : Nat) (lex more : Lexicon K) : Prop where
  size : more.units.size = lex.units.size + n
  appended : ∃ new : List (NamedUnit K),
    more.units.rows = lex.units.rows ++ new.map (fun u => (u.asciiSymbol, u)) ∧
    ∀ u ∈ new, Lists system Catalogue.units u
  kept : ∀ u, lex.Holds u → more.Holds u
  found : ∀ s u, lex.find? s = some u → more.find? s = some u
  noted : system ∈ more.systems
  registered : ∀ u, Lists system Catalogue.units u →
    (more.Holds u ↔ ∀ v, lex.units.get? u.asciiSymbol = some v → v = u)

theorem loadSystem_eq_ok {n : Nat} (run : (loadSystem system).apply lex = (.ok n, more)) :
    ∃ mid, (loadRows system Catalogue.units).apply lex = (.ok n, mid) ∧ system ∈ more.systems ∧
      more.units = mid.units ∧ more.symbols = mid.symbols := by
  rw [loadSystem, Action.apply_bind] at run
  rcases rows : (loadRows system Catalogue.units).apply lex with ⟨_ | m, mid⟩
  · rw [rows] at run
    cases (Prod.mk.inj run).1
  · rw [rows] at run
    obtain ⟨same, rfl⟩ := Prod.mk.inj run
    obtain rfl := Except.ok.inj same
    refine ⟨mid, rfl, ?_, rfl, rfl⟩
    dsimp only
    split
    next already => exact List.contains_iff_mem.mp already
    next => exact List.mem_append_right _ (List.mem_singleton.mpr rfl)

/-- What is listed under the ASCII symbol of a tabled unit of the system is this unit, unless it was
there before the loading. -/
theorem Extended.of_system {new : List (NamedUnit K)}
    (extended : Extended system Catalogue.units new lex more) {v : NamedUnit K}
    (lists : Lists system Catalogue.units u) (ascii : v.asciiSymbol = u.asciiSymbol)
    (listed : more.units.get? u.asciiSymbol = some v) :
    (u.asciiSymbol, v) ∈ lex.units.rows ∨ v = u := by
  have row := Register.mem_rows_of_get? listed
  rw [extended.units] at row
  rcases List.mem_append.mp row with earlier | later
  · exact .inl earlier
  · right
    obtain ⟨w, mem, same⟩ := List.mem_map.mp later
    obtain ⟨_, rfl⟩ := Prod.mk.inj same
    obtain ⟨r, isRow, _, declared⟩ := extended.listed w mem
    obtain ⟨r', isRow', _, declared'⟩ := lists
    have own : u.asciiSymbol ∈ w.symbols := ascii ▸ w.mem_symbols (.inl rfl)
    exact Catalogue.Declared.unique ⟨isRow, declared⟩ ⟨isRow', declared'⟩ own
      (u.mem_symbols (.inl rfl))

/-- **What a loading that does not stop registers**, whatever units were registered, taken out and
loaded before. -/
theorem system_loaded (prefixes : PrefixTable K) (calls : List (Call K)) {n : Nat}
    (run : (loadSystem system).apply (called prefixes calls) = (.ok n, more)) :
    Loaded system n (called prefixes calls) more := by
  have consistent := (consistent_called prefixes calls).1
  obtain ⟨mid, rows, noted, units, symbols⟩ := loadSystem_eq_ok run
  have consistent' : more.Consistent := by
    have kept := (keepsConsistent_loadSystem system _).invariant ⟨consistent, rfl⟩
    rw [run] at kept
    exact kept.1
  obtain ⟨new, length, extended⟩ := consistent.extended_of_loadRows rows
  refine ⟨?_, ⟨new, units ▸ extended.units, extended.listed⟩, fun u holds => ?_, ?_, noted,
    fun u lists => ?_⟩
  · rw [units, Register.size, extended.units, List.length_append, List.length_map, length]
    rfl
  · rw [consistent'.holds_iff, units]
    exact extended.keeps holds.1
  · intro s u found
    rw [find?, symbols]
    exact extended.found s u found
  · rw [consistent'.holds_iff, units]
    constructor
    · intro listed v earlier
      exact Option.some.inj ((extended.keeps earlier).symm.trans listed)
    · intro free
      obtain ⟨v, taken⟩ : ∃ v, mid.units.get? u.asciiSymbol = some v := by
        obtain ⟨row, mem, belongs, declared⟩ := lists
        exact asciiSymbol_of_declare declared ▸ consistent.taken_of_loadRows rows row mem belongs
      have ascii : v.asciiSymbol = u.asciiSymbol :=
        ((consistent'.listed _ v).mp (units ▸ taken)).2
      rcases extended.of_system lists ascii taken with earlier | same
      · rw [taken, free v ((Register.mem_rows_iff consistent.nodup).mp earlier)]
      · rw [taken, same]

/-! ### A symbol of a different unit -/

/-- A length under the symbol of the pixel. -/
def dot : NamedUnit ℚ := ⟨"dot", "px", "px", none, .ofAxis .length, 0, [], none, 1, none⟩

/-- A lexicon with the dot alone. -/
def dotted : Lexicon ℚ := called Catalogue.prefixes [.add dot]

/-- The unit that a row of lengths declares. -/
def tabledLength (name symbol : String) : NamedUnit ℚ :=
  ⟨name, symbol, symbol, none, .ofAxis .length, 0, [.typography], none, 1, some "length"⟩

theorem lists_tabledLength {name symbol : String}
    (mem : Catalogue.unit name symbol [.typography] ∈ Catalogue.length.units) :
    Lists .typography Catalogue.units (tabledLength name symbol) := by
  refine ⟨(Catalogue.length, Catalogue.unit name symbol [.typography]), ?_, rfl, ?_⟩
  · refine List.mem_flatMap.mpr ⟨Catalogue.length, by decide +kernel, ?_⟩
    exact List.mem_map.mpr ⟨_, mem, rfl⟩
  · have coded : Dimension.ofCode Catalogue.length.dimension = .ok (.ofAxis .length) := by
      decide +kernel
    rw [NamedUnit.declare]
    exact bind_eq_ok.mpr ⟨_, coded, rfl⟩

/-- The typographic units are loaded beside the dot, the point among them. -/
theorem point_loaded :
    ∃ more, (loadSystem .typography).apply dotted = (.ok 2, more) ∧
      Loaded .typography 2 dotted more ∧ more.Holds (tabledLength "point" "p") := by
  have count : ((loadSystem .typography).apply dotted).1 = .ok 2 := by decide +kernel
  have free : dotted.units.get? "p" = none := by decide +kernel
  have lists : Lists .typography Catalogue.units (tabledLength "point" "p") :=
    lists_tabledLength (by decide +kernel)
  rcases run : (loadSystem .typography).apply dotted with ⟨r, more⟩
  obtain rfl : r = .ok 2 := by rw [← count, run]
  have loaded : Loaded .typography 2 dotted more := system_loaded Catalogue.prefixes [.add dot] run
  refine ⟨more, rfl, loaded, (loaded.registered _ lists).mpr fun v listed => ?_⟩
  cases free.symm.trans listed

/-- The typographic units are loaded beside the dot without an error, and the pixel is not
registered. -/
theorem pixel_not_loaded :
    let more := ((loadSystem .typography).apply dotted).2
    ((loadSystem .typography).apply dotted).1 = .ok 2 ∧
    Lists .typography Catalogue.units (tabledLength "pixel" "px") ∧
    more.find? "px" = some dot ∧ ¬ more.Holds (tabledLength "pixel" "px") := by
  have found : ((loadSystem .typography).apply dotted).2.find? "px" = some dot := by decide +kernel
  refine ⟨by decide +kernel, lists_tabledLength (by decide +kernel), found, fun holds => ?_⟩
  have other := found.symm.trans (holds.2 "px" (NamedUnit.mem_symbols _ (.inl rfl)))
  exact absurd other (by decide +kernel)

end Lexicon

end Metrology
