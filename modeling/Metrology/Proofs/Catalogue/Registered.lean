import Metrology.Proofs.Action
import Metrology.Proofs.Catalogue.Symbols
import Metrology.Proofs.Outcome
import Metrology.Session.Change

/-!
# Lexicons filled from the catalogue

The lexicon of a session made from systems of measurement knows tabled units only, each under all of
its symbols.
-/
namespace Metrology

variable {K : Type} [Scalar K]

namespace Catalogue

/-- The unit is the one that a tabled row declares. -/
def Declared (u : NamedUnit K) (r : QuantityRow × UnitRow) : Prop :=
  r ∈ units ∧ NamedUnit.declare (r.2.declaration r.1) = .ok u

namespace Declared

variable {u v : NamedUnit K} {r : QuantityRow × UnitRow}

theorem fields (declared : Declared u r) :
    u.asciiSymbol = r.2.asciiSymbol ∧ u.unicodeSymbol = r.2.unicode ∧
      u.alternateSymbol = r.2.alternateSymbol ∧ u.group = r.2.group ∧
      u.expansion = r.2.expansion ∧ u.expansionMultiplier = Scalar.one ∧
      Dimension.ofCode r.1.dimension = .ok u.dimension := by
  obtain ⟨dimension, coded, rest⟩ := bind_eq_ok.mp declared.2
  split at rest
  · cases rest
  · obtain rfl := Except.ok.inj rest
    exact ⟨rfl, rfl, rfl, rfl, rfl, rfl, coded⟩

theorem symbols_eq (declared : Declared u r) : u.symbols = r.2.symbols := by
  obtain ⟨ascii, unicode, alternate, _⟩ := declared.fields
  obtain ⟨_, _, _, _, _, _, _, _, _, _⟩ := u
  subst ascii unicode alternate
  rfl

/-- A row declares one unit. -/
theorem eq (declared : Declared u r) (declared' : Declared v r) : u = v :=
  Except.ok.inj (declared.2.symm.trans declared'.2)

/-- A symbol belongs to one tabled unit. -/
theorem unique {r' : QuantityRow × UnitRow} {s : String} (declared : Declared u r)
    (declared' : Declared v r') (own : s ∈ u.symbols) (other : s ∈ v.symbols) : u = v := by
  rw [declared.symbols_eq] at own
  rw [declared'.symbols_eq] at other
  have same : r = r' := eq_of_nodup_flatMap unambiguous.nodup_symbols declared.1 declared'.1 own other
  subst same
  exact declared.eq declared'

end Declared

end Catalogue

omit [Scalar K] in
/-- The ASCII and the Unicode symbol are symbols of the unit, whatever its alternate is. -/
theorem NamedUnit.mem_symbols (u : NamedUnit K) {s : String}
    (own : s = u.asciiSymbol ∨ s = u.unicodeSymbol) : s ∈ u.symbols := by
  have isOwn : s ∈ if u.unicodeSymbol = u.asciiSymbol then [u.asciiSymbol]
      else [u.asciiSymbol, u.unicodeSymbol] := by
    split
    next same => simpa [same] using own
    next => simpa using own
  cases alternate : u.alternateSymbol with
  | none => simpa only [symbols, alternate] using isOwn
  | some t =>
    simp only [symbols, alternate]
    generalize (if u.unicodeSymbol = u.asciiSymbol then _ else _) = symbols at isOwn ⊢
    split
    · exact isOwn
    · exact List.mem_append_left _ isOwn

theorem Register.get?_putAll {κ ν : Type} [DecidableEq κ] (r : Register κ ν) (ks : List κ) (v : ν)
    (k : κ) : (r.putAll (ks.map fun k => (k, v))).get? k = if k ∈ ks then some v else r.get? k := by
  induction ks generalizing r with
  | nil => simp [putAll]
  | cons k' ks ih =>
    have step := ih (r.put k' v)
    simp only [putAll, List.map_cons, List.foldl_cons, get?_put] at step ⊢
    rw [step]
    by_cases later : k ∈ ks
    · simp [later]
    · simp [later, @eq_comm _ k k']

namespace Lexicon

/-- Every unit is a tabled one and is found under each of its symbols. -/
structure Tabled (lex : Lexicon K) : Prop where
  prefixes : lex.prefixes = Catalogue.prefixes
  declared : ∀ s u, lex.find? s = some u → s ∈ u.symbols ∧ ∃ r, Catalogue.Declared u r
  complete : ∀ s u, lex.find? s = some u → ∀ t ∈ u.symbols, lex.find? t = some u
  listed : ∀ row ∈ lex.units.rows, lex.find? row.2.asciiSymbol = some row.2

theorem find?_add {lex more : Lexicon K} {u : NamedUnit K} (added : lex.add u = .ok more)
    (s : String) : more.find? s = if s ∈ u.symbols then some u else lex.find? s := by
  unfold add at added
  split at added
  · cases added
  · obtain rfl := Except.ok.inj added
    exact lex.symbols.get?_putAll u.symbols u s

theorem mem_units_add {lex more : Lexicon K} {u : NamedUnit K} (added : lex.add u = .ok more)
    {row : String × NamedUnit K} (mem : row ∈ more.units.rows) :
    row.2 = u ∨ row ∈ lex.units.rows := by
  unfold add at added
  split at added
  · cases added
  · obtain rfl := Except.ok.inj added
    rcases Register.mem_rows_put mem with rfl | old
    · exact .inl rfl
    · exact .inr old

theorem Tabled.find?_of_ofDimension {lex : Lexicon K} (tabled : lex.Tabled) {u : NamedUnit K}
    {d : Dimension} (mem : u ∈ lex.ofDimension d) :
    lex.find? u.asciiSymbol = some u ∧ u.dimension = d := by
  obtain ⟨listed, same⟩ := List.mem_filter.mp mem
  obtain ⟨row, isRow, rfl⟩ := List.mem_map.mp listed
  exact ⟨tabled.listed row isRow, of_decide_eq_true same⟩

theorem prefixes_add {lex more : Lexicon K} {u : NamedUnit K} (added : lex.add u = .ok more) :
    more.prefixes = lex.prefixes := by
  unfold add at added
  split at added
  · cases added
  · obtain rfl := Except.ok.inj added
    rfl

theorem systems_add {lex more : Lexicon K} {u : NamedUnit K} (added : lex.add u = .ok more) :
    more.systems = lex.systems := by
  unfold add at added
  split at added
  · cases added
  · obtain rfl := Except.ok.inj added
    rfl

theorem Tabled.add {lex more : Lexicon K} {u : NamedUnit K} {r} (tabled : lex.Tabled)
    (declared : Catalogue.Declared u r) (added : lex.add u = .ok more) : more.Tabled where
  prefixes := by rw [prefixes_add added, tabled.prefixes]
  declared s v found := by
    rw [find?_add added] at found
    split at found
    next own =>
      obtain rfl := Option.some.inj found
      exact ⟨own, r, declared⟩
    next => exact tabled.declared s v found
  complete s v found t mem := by
    rw [find?_add added] at found ⊢
    split at found
    next =>
      obtain rfl := Option.some.inj found
      rw [if_pos mem]
    next =>
      split
      next own =>
        obtain ⟨_, r', declared'⟩ := tabled.declared s v found
        rw [declared.unique declared' own mem]
      next => exact tabled.complete s v found t mem
  listed row mem := by
    rw [find?_add added]
    rcases mem_units_add added mem with new | old
    · rw [new, if_pos (u.mem_symbols (.inl rfl))]
    · have found := tabled.listed row old
      split
      next own =>
        obtain ⟨mine, _, declared'⟩ := tabled.declared _ _ found
        rw [declared.unique declared' own mine]
      next => exact found

omit [Scalar K] in
theorem prefixes_ofPrefixes (t : PrefixTable K) : (ofPrefixes t).prefixes = t := rfl

omit [Scalar K] in
theorem find?_ofPrefixes (t : PrefixTable K) (s : String) : (ofPrefixes t).find? s = none := rfl

theorem tabled_ofPrefixes : (ofPrefixes Catalogue.prefixes : Lexicon K).Tabled := by
  refine ⟨prefixes_ofPrefixes _, fun s u found => ?_, fun s u found => ?_,
    fun row mem => absurd mem List.not_mem_nil⟩
  · rw [find?_ofPrefixes] at found
    cases found
  · rw [find?_ofPrefixes] at found
    cases found

/-- What the registration of a tabled unit keeps, the loading of a system keeps, also where it stops
halfway. -/
theorem keeps_loadSystem_of_add {I : Lexicon K → Prop} (system : MeasurementSystem)
    (registers : ∀ {lex more u r}, I lex → Catalogue.Declared u r → lex.add u = .ok more → I more)
    (notes : ∀ {lex} systems, I lex → I { lex with systems := systems }) :
    (loadSystem system).Keeps I fun _ => True := by
  have rows (rs : List (Catalogue.QuantityRow × Catalogue.UnitRow))
      (tabled : ∀ r ∈ rs, r ∈ Catalogue.units) : (loadRows system rs).Keeps I fun _ => True := by
    induction rs with
    | nil => exact .pure trivial
    | cons row rest ih =>
      have later := ih fun r mem => tabled r (List.mem_cons_of_mem _ mem)
      rw [loadRows]
      refine .bind .get fun lex holds => ?_
      split
      next =>
        refine .bind (.lift fun u declared => declared) fun u declared => ?_
        refine .bind (.lift fun more added => added) fun more added => ?_
        have kept := registers holds ⟨tabled row List.mem_cons_self, declared⟩ added
        exact .bind (.set kept) fun _ _ => .bind later fun _ _ => .pure trivial
      next => exact later
  exact .bind (rows _ fun _ mem => mem) fun _ _ =>
    .bind (.modify fun _ holds => notes _ holds) fun _ _ => .pure trivial

theorem keeps_loadSystem (system : MeasurementSystem) :
    (loadSystem system).Keeps (Tabled (K := K)) fun _ => True :=
  keeps_loadSystem_of_add system (fun tabled declared added => tabled.add declared added)
    fun _ tabled => ⟨tabled.prefixes, tabled.declared, tabled.complete, tabled.listed⟩

end Lexicon

namespace Session

variable {systems : List MeasurementSystem} {s : Session K}

/-- A session made from systems is what loading them leaves of the blank one. -/
theorem loaded_of_ofSystems (made : ofSystems systems = .ok s) :
    ∃ x, (loadSystems systems).apply blank = (.ok x, s) := by
  unfold ofSystems at made
  split at made
  next x _ run =>
    obtain rfl := Except.ok.inj made
    exact ⟨x, run⟩
  next => cases made

theorem keeps_loadSystems {I : Session K → Prop}
    (loads : ∀ system, (onLexicon (Lexicon.loadSystem system)).Keeps I fun _ => True)
    (systems : List MeasurementSystem) : (loadSystems systems).Keeps I fun _ => True := by
  induction systems with
  | nil => exact .pure trivial
  | cons system rest ih => exact .bind (loads system) fun _ _ => ih

/-- What the blank session has and the loading of a system keeps, a session made from systems has. -/
theorem kept_ofSystems {I : Session K → Prop} (holds : I blank)
    (loads : ∀ system, (onLexicon (Lexicon.loadSystem system)).Keeps I fun _ => True)
    (made : ofSystems systems = .ok s) : I s := by
  obtain ⟨_, run⟩ := loaded_of_ofSystems made
  exact (keeps_loadSystems loads systems).left run holds

/-- A session made from systems knows tabled units only. -/
theorem tabled_ofSystems (made : ofSystems systems = .ok s) : s.lexicon.Tabled :=
  kept_ofSystems (I := fun s => s.lexicon.Tabled) Lexicon.tabled_ofPrefixes
    (fun system => .onPart (fun _ tabled => tabled) (fun _ _ _ tabled => tabled)
      (Lexicon.keeps_loadSystem system)) made

end Session

end Metrology
