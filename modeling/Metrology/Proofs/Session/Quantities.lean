import Metrology.Proofs.Session.Soundness

/-!
# Expanding and merging keep quantities

What a session expands or merges is as much as before, for all sizes that fit its conversions at that
time, and of the same dimension.
-/
namespace Metrology.Session

variable {K : Type} [Field K] [LinearOrder K] [Scalar K] [IsStrictOrderedRing K] [Scalar.Exact K]

/-- **Expanding and merging keep quantities.** A session is made from any systems; then its
conversions are changed and it is asked for units of its lexicon, in any order, and changes or
questions may fail. If it then expands or merges a value of a unit, the result is as much of another
unit, whichever sizes of the registered units fit the conversions that are registered then and the
expansions; and the two units have the same dimension, if both have one. -/
theorem quantity_kept {systems : List MeasurementSystem} {s₀ : Session K}
    (made : ofSystems systems = .ok s₀) {events : List (Event K)}
    (known : ∀ e ∈ events, ∀ ref ∈ e.refs, s₀.lexicon.Refers ref) {ref : UnitRef K}
    (refers : s₀.lexicon.Refers ref) {value w : K} {t : Compound K}
    (given : ((expand value ref).apply (after events s₀)).1 = .ok (w, t) ∨
      ((merge value ref).apply (after events s₀)).1 = .ok (w, t)) :
    ∃ u, s₀.lexicon.deref ref = .ok u ∧
      (∀ size, (after events s₀).lexicon.Fits (after events s₀).store size →
        value * u.size size = w * t.size size) ∧
      ∀ d e, u.dimension = .ok d → t.dimension = .ok e → e = d := by
  have tabled := tabled_ofSystems made
  have coherent := (coherent_ofSystems made).after tabled known
  rw [coherent.lexicon]
  obtain ⟨u, meant, same⟩ : ∃ u, s₀.lexicon.deref ref = .ok u ∧
      SameQuantity s₀.lexicon (after events s₀).store value u (w, t) := by
    rcases given with given | given
    · exact (keeps_expand tabled value refers).answer coherent given
    · exact (keeps_merge tabled value refers).answer coherent given
  refine ⟨u, meant, same.size_eq, fun d e measured measured' => ?_⟩
  have total := (same.hasDimension d (Compound.hasDimension_of_dimension measured)).total_eq
  exact (Compound.dimension_eq_ok_iff.mp measured').2.1.symm.trans total

/-- A session with the SI units. -/
def engineer : Session ℚ := (ofSystems [.si]).toOption.getD blank

/-- It was asked about forces. -/
def loading : List (Event ℚ) := [.ask (.convert 1 (.symbol "kN") (.symbol "N"))]

/-- Sizes in SI base units, of which the kilogram has a prefix. -/
def inBaseUnits (u : NamedUnit ℚ) : ℚ := if u.asciiSymbol = "g" then 1/1000 else 1

theorem ofSystems_engineer : ofSystems [.si] = .ok engineer :=
  eq_ok_getD (by decide +kernel) blank

theorem refers_loading : ∀ e ∈ loading, ∀ ref ∈ e.refs, engineer.lexicon.Refers ref := by
  simp [loading, Event.refs, Query.refs, Lexicon.Refers]

theorem fits_inBaseUnits :
    (after loading engineer).lexicon.Fits (after loading engineer).store inBaseUnits := by
  have tabled := tabled_ofSystems ofSystems_engineer
  rw [((coherent_ofSystems ofSystems_engineer).after tabled refers_loading).lexicon]
  exact fits_of_checks tabled (by decide +kernel)

/-- Three kilonewtons times a millimetre are three newtons times a metre. -/
theorem kilonewton_expanded :
    ofSystems [.si] = .ok engineer ∧
      (∀ e ∈ loading, ∀ ref ∈ e.refs, engineer.lexicon.Refers ref) ∧
      (after loading engineer).lexicon.Fits (after loading engineer).store inBaseUnits ∧
      ∃ u t : Compound ℚ, engineer.lexicon.parse "kN*mm" = .ok u ∧
        ((expand 3 (.symbol "kN*mm")).apply (after loading engineer)).1 = .ok (3, t) ∧
        t.write .ascii = "kg*m2/s2" ∧ 3 * u.size inBaseUnits = 3 * t.size inBaseUnits := by
  have expanded : ((expand 3 (.symbol "kN*mm")).apply (after loading engineer)).1.map
      (fun r => (r.1, r.2.write .ascii)) = .ok (3, "kg*m2/s2") := by decide +kernel
  obtain ⟨⟨w, t⟩, given, shown⟩ := map_eq_ok.mp expanded
  obtain ⟨rfl, written⟩ := Prod.mk.inj shown
  have refers : engineer.lexicon.Refers (.symbol "kN*mm") := trivial
  obtain ⟨u, meant, kept, _⟩ :=
    quantity_kept ofSystems_engineer refers_loading refers (.inl given)
  exact ⟨ofSystems_engineer, refers_loading, fits_inBaseUnits, u, t, meant, given, written,
    kept _ fits_inBaseUnits⟩

end Metrology.Session
