import Mathlib.Data.Set.Card
import Mathlib.Logic.Relation
import Metrology.Proofs.Session.Readability
import Metrology.Proofs.Session.Tending

/-!
# Expanding units

A unit expands into the units that its expansion names. Where no unit comes back to itself that way,
each step down leaves fewer units below, of which there are no more than are registered.
-/
namespace Metrology

/-- Tabled units of a single axis have no expansion. -/
theorem Catalogue.expansion_of_single_axis : ∀ r ∈ units,
    ∀ d ∈ (Dimension.ofCode r.1.dimension).toOption, d.baseAxis?.isSome = true →
      r.2.expansion = none := by
  decide +kernel

variable {K : Type}

namespace Lexicon

variable {lex : Lexicon K} {u v : NamedUnit K}

/-- The expansion of `u` has a term of `v`. -/
def Expands (lex : Lexicon K) (u v : NamedUnit K) : Prop :=
  ∃ text c t, u.expansion = some text ∧ lex.parse text = .ok c ∧ t ∈ c.terms ∧ t.unit = v

/-- No unit reaches itself by expansions. -/
def Acyclic (lex : Lexicon K) : Prop := ∀ u, ¬ Relation.TransGen lex.Expands u u

/-- The units that `u` reaches by expansions. -/
def below (lex : Lexicon K) (u : NamedUnit K) : Set (NamedUnit K) :=
  {v | Relation.TransGen lex.Expands u v}

/-- Whatever is handed over, what it expands into is registered. -/
theorem Consistent.mem_values_of_expands (consistent : lex.Consistent) (expands : lex.Expands u v) :
    v ∈ lex.units.values := by
  obtain ⟨text, c, t, _, read, mem, rfl⟩ := expands
  have names := ((consistent.indexed.sound_of_parse read).terms t mem).1.base
  have listed := (consistent.listed t.unit.asciiSymbol t.unit).mpr ⟨names.1, rfl⟩
  exact List.mem_map.mpr ⟨_, Register.mem_rows_of_get? listed, rfl⟩

theorem Consistent.below_subset (consistent : lex.Consistent) (u : NamedUnit K) :
    lex.below u ⊆ {v | v ∈ lex.units.values} := by
  intro v reached
  cases reached with
  | single expands => exact consistent.mem_values_of_expands expands
  | tail _ expands => exact consistent.mem_values_of_expands expands

theorem Consistent.finite_below (consistent : lex.Consistent) (u : NamedUnit K) :
    (lex.below u).Finite :=
  (List.finite_toSet lex.units.values).subset (consistent.below_subset u)

theorem Consistent.card_below_le (consistent : lex.Consistent) (u : NamedUnit K) :
    (lex.below u).ncard ≤ lex.units.size := by
  classical
  calc (lex.below u).ncard
      ≤ {v | v ∈ lex.units.values}.ncard :=
        Set.ncard_le_ncard (consistent.below_subset u) (List.finite_toSet _)
    _ = lex.units.values.toFinset.card := by
        rw [← List.coe_toFinset, Set.ncard_coe_finset]
    _ ≤ lex.units.values.length := List.toFinset_card_le _
    _ = lex.units.size := List.length_map ..

/-- Fewer units are below what a unit expands into: it is not below itself. -/
theorem Acyclic.card_below_lt (acyclic : lex.Acyclic) (consistent : lex.Consistent)
    (expands : lex.Expands u v) : (lex.below v).ncard < (lex.below u).ncard := by
  refine Set.ncard_lt_ncard ⟨fun w reached => .head expands reached, fun subset => ?_⟩
    (consistent.finite_below u)
  exact acyclic v (subset (Relation.TransGen.single expands))

/-- A height that every step down from a registered unit lowers shows that no unit reaches itself. -/
theorem Consistent.acyclic_of_height (consistent : lex.Consistent) (height : NamedUnit K → Nat)
    (falls : ∀ u ∈ lex.units.values, ∀ v, lex.Expands u v → height v < height u) : lex.Acyclic := by
  intro u reached
  have registered := consistent.below_subset u reached
  have lower {v : NamedUnit K} (reached : Relation.TransGen lex.Expands u v) :
      height v < height u := by
    induction reached with
    | single expands => exact falls _ registered _ expands
    | tail before expands ih =>
      exact Nat.lt_trans (falls _ (consistent.below_subset u before) _ expands) ih
  exact Nat.lt_irrefl _ (lower reached)

end Lexicon

variable [Scalar K]

/-- Tabled units expand into units of a single axis, which expand no further. -/
theorem Lexicon.Tabled.acyclic {lex : Lexicon K} (tabled : lex.Tabled) (consistent : lex.Consistent) :
    lex.Acyclic := by
  have found {u : NamedUnit K} (mem : u ∈ lex.units.values) : lex.find? u.asciiSymbol = some u := by
    obtain ⟨row, isRow, rfl⟩ := List.mem_map.mp mem
    exact tabled.listed row isRow
  refine consistent.acyclic_of_height (fun u => if u.expansion.isSome then 1 else 0)
    fun u mem v expands => ?_
  have plain : v.expansion = none := by
    obtain ⟨_, r, declared⟩ :=
      tabled.declared _ v (found (consistent.mem_values_of_expands expands))
    obtain ⟨text, c, t, expansion, read, inside, rfl⟩ := expands
    have base := tabled.isBase_of_expansion (found mem) expansion read t inside
    obtain ⟨_, _, _, _, own, _, coded⟩ := declared.fields
    rw [own]
    refine Catalogue.expansion_of_single_axis r declared.1 _ ?_ base
    rw [coded]
    rfl
  obtain ⟨text, _, _, expansion, _⟩ := expands
  simp [plain, expansion]

/-- No unit reaches itself in a session that was just made. -/
theorem Session.acyclic_ofSystems {systems : List MeasurementSystem} {s : Session K}
    (made : ofSystems systems = .ok s) : s.lexicon.Acyclic :=
  (tabled_ofSystems made).acyclic (consistent_ofSystems made).1

end Metrology
