import Metrology.Proofs.Session.History

/-!
# Soundness of conversion

Every conversion that a session gives holds for all sizes that fit its conversions at that time,
whatever happened to the session before.
-/
namespace Metrology.Session

variable {K : Type} [Field K] [LinearOrder K] [Scalar K] [IsStrictOrderedRing K] [Scalar.Exact K]

/-- **Soundness of conversion.** A session is made from any systems; then its conversions are
changed and it is asked for units of its lexicon, in any order, and changes or questions may fail.
Whichever sizes of the registered units fit the conversions that are registered then and the
expansions, every conversion that the session gives between two units holds for them: the first is
as large as the factor times the second. -/
theorem conversion_sound {systems : List MeasurementSystem} {s₀ : Session K}
    (made : ofSystems systems = .ok s₀) {events : List (Event K)}
    (known : ∀ e ∈ events, ∀ ref ∈ e.refs, s₀.lexicon.Refers ref) {size : NamedUnit K → K}
    (fits : (after events s₀).lexicon.Fits (after events s₀).store size) {src dest : UnitRef K}
    (refersSrc : s₀.lexicon.Refers src) (refersDest : s₀.lexicon.Refers dest) {c : Conversion K}
    (given : ((conversion src dest).apply (after events s₀)).1 = .ok (some c) ∨
      ∃ d, ((conversionIn d src dest).apply (after events s₀)).1 = .ok (some c)) :
    ∃ u v, s₀.lexicon.deref src = .ok u ∧ s₀.lexicon.deref dest = .ok v ∧
      c.src = u.write .ascii ∧ c.dest = v.write .ascii ∧
      u.size size = c.factor.value * v.size size := by
  have tabled := tabled_ofSystems made
  have coherent := (coherent_ofSystems made).after tabled known
  rw [coherent.lexicon] at fits
  have converts : c.Converts s₀.lexicon (after events s₀).store src dest := by
    rcases given with given | ⟨d, given⟩
    · exact (keeps_conversion tabled refersSrc refersDest).answer coherent given c rfl
    · exact (keeps_conversionIn tabled refersSrc refersDest).answer coherent given c rfl
  obtain ⟨u, v, meantSrc, meantDest, isSrc, isDest, holds⟩ := converts
  exact ⟨u, v, meantSrc, meantDest, isSrc, isDest, holds size fits⟩

/-! ### Sizes are checked on the texts -/

/-- What is checked of a unit: its size is positive, one for a scalar, and that of its expansion. -/
def ChecksUnit (lex : Lexicon K) (size : NamedUnit K → K) (u : NamedUnit K) : Prop :=
  0 < size u ∧ (u.isScalar = true → size u = 1) ∧
    ∀ e ∈ u.expansion, (lex.parse e).toOption = none ∨
      size u = u.expansionMultiplier * lex.textSize size e

/-- What is checked of a row of the tables, if it is between registered units. -/
def ChecksRow (lex : Lexicon K) (size : NamedUnit K → K) (row : Catalogue.ConversionRow) : Prop :=
  (lex.parse row.src).toOption = none ∨ (lex.parse row.dest).toOption = none ∨
    lex.textSize size row.src = (Scalar.ofDecimal row.factor : K) * lex.textSize size row.dest

/-- What is checked of conversions that are kept by dimension. -/
def ChecksEdges (lex : Lexicon K) (size : NamedUnit K → K) (edges : Register Dimension (Edges K)) :
    Prop :=
  ∀ own ∈ edges.rows, ∀ row ∈ own.2.rows,
    lex.textSize size row.2.src = row.2.factor.value * lex.textSize size row.2.dest

/-- What is checked of the sizes of all units: they match the expansions, the tables, and the
caller's and the registered edges of a store. -/
def Checks (lex : Lexicon K) (store : EdgeStore K) (size : NamedUnit K → K) : Prop :=
  (∀ row ∈ lex.symbols.rows, ChecksUnit lex size row.2) ∧
    (∀ q ∈ Catalogue.quantities, ∀ row ∈ q.conversions, ChecksRow lex size row) ∧
    ChecksEdges lex size store.added ∧ ChecksEdges lex size store.edges

section Checking

variable {lex : Lexicon K} {store : EdgeStore K} {size : NamedUnit K → K}

omit [IsStrictOrderedRing K] [Scalar.Exact K]

instance (u : NamedUnit K) : Decidable (ChecksUnit lex size u) :=
  inferInstanceAs (Decidable (_ ∧ _ ∧ ∀ e ∈ u.expansion, _))

instance (row : Catalogue.ConversionRow) : Decidable (ChecksRow lex size row) :=
  inferInstanceAs (Decidable (_ ∨ _ ∨ _))

instance (edges : Register Dimension (Edges K)) : Decidable (ChecksEdges lex size edges) :=
  inferInstanceAs (Decidable (∀ own ∈ edges.rows, ∀ row ∈ own.2.rows, _))

instance : Decidable (Checks lex store size) :=
  inferInstanceAs (Decidable ((∀ row ∈ lex.symbols.rows, _) ∧
    (∀ q ∈ Catalogue.quantities, ∀ row ∈ q.conversions, _) ∧ _ ∧ _))

omit [LinearOrder K] in
theorem ChecksEdges.balances {edges : Register Dimension (Edges K)} (checks : ChecksEdges lex size edges)
    {d : Dimension} {es : Edges K} (known : edges.get? d = some es) :
    ∀ row ∈ es.rows, lex.Balances size row.2 := fun row mem =>
  Lexicon.balances_of_textSize (checks (d, es) (Register.mem_rows_of_get? known) row mem)

omit [LinearOrder K] in
theorem ChecksRow.balances {row : Catalogue.ConversionRow} (checks : ChecksRow lex size row)
    (code : String) :
    lex.Balances size ⟨code, row.src, row.dest, Factor.read (Scalar.ofDecimal row.factor)⟩ := by
  rcases checks with unknown | unknown | equal
  · intro u v src
    simp [src, Except.toOption] at unknown
  · intro u v _ dest
    simp [dest, Except.toOption] at unknown
  · exact Lexicon.balances_of_textSize equal

theorem ChecksUnit.expands {u : NamedUnit K} (checks : ChecksUnit lex size u) {e : String}
    (expands : u.expansion = some e) {c : Compound K} (read : lex.parse e = .ok c) :
    size u = u.expansionMultiplier * c.size size := by
  rcases checks.2.2 e expands with unread | equal
  · simp [read, Except.toOption] at unread
  · rwa [Lexicon.textSize_eq read] at equal

variable (checks : Checks lex store size)
include checks

theorem Checks.unit {symbol : String} {u : NamedUnit K} (found : lex.find? symbol = some u) :
    ChecksUnit lex size u :=
  checks.1 (symbol, u) (Register.mem_rows_of_get? found)

theorem Checks.assigns : lex.Assigns size where
  positive _ _ found := (checks.unit found).1
  scalar _ _ found := (checks.unit found).2.1

/-- The rows that edges are built from match the sizes: the tables do, and a unit has the size of its
expansion. -/
theorem Checks.rows [Scalar.Exact K] (tabled : lex.Tabled) (d : Dimension) :
    ∀ row ∈ EdgeStore.rows lex d, lex.Balances size ⟨d.code, row.1.1, row.1.2, row.2⟩ := by
  intro row mem
  rcases List.mem_append.mp mem with table | own
  · obtain ⟨c, isRow, rfl⟩ := List.mem_map.mp table
    obtain ⟨q, isQuantity, isRow, _⟩ := Catalogue.mem_conversions isRow
    exact (checks.2.1 q isQuantity c isRow).balances d.code
  · obtain ⟨u, listed, own⟩ := List.mem_filterMap.mp own
    obtain ⟨e, expands, rfl⟩ := Option.map_eq_some_iff.mp own
    obtain ⟨found, _⟩ := tabled.find?_of_ofDimension listed
    intro v w src dest
    have own : v.size size = size u := by
      rw [← Lexicon.textSize_eq src, checks.assigns.textSize_asciiSymbol tabled found]
    rw [own, Factor.value_read]
    exact (checks.unit found).expands expands dest

end Checking

/-- Sizes that were checked fit. -/
theorem fits_of_checks {lex : Lexicon K} {store : EdgeStore K} {size : NamedUnit K → K}
    (tabled : lex.Tabled) (checks : Checks lex store size) : lex.Fits store size := by
  obtain ⟨added, built⟩ := checks.2.2
  refine Lexicon.fits_of_rows tabled checks.assigns (checks.rows tabled) (fun d => ?_)
    (fun d es known => built.balances known)
    (fun _ _ _ _ found expands read => (checks.unit found).expands expands read)
  unfold EdgeStore.addedIn
  cases known : store.added.get? d with
  | none => exact fun _ mem => absurd mem List.not_mem_nil
  | some es => exact added.balances known

/-! ### A session of a typographer -/

/-- A session with the units of typography. -/
def typographer : Session ℚ := (ofSystems [.typography]).toOption.getD blank

/-- The pixel is registered as half a point, which is asked about and then put right. -/
def typesetting : List (Event ℚ) :=
  [.addConversion "px" "p" ⟨1/2, 0⟩, .addConversion "P" "p" ⟨12, 0⟩,
    .ask (.conversion (.symbol "P") (.symbol "px")), .addConversion "p" "m" ⟨1, 0⟩,
    .removeConversion "px" "p", .addConversion "px" "p" ⟨3/4, 0⟩,
    .ask (.convert 5 (.symbol "p2") (.symbol "P*px"))]

/-- Sizes in points. -/
def points (u : NamedUnit ℚ) : ℚ :=
  if u.asciiSymbol = "P" then 12 else if u.asciiSymbol = "px" then 3/4 else 1

theorem ofSystems_typographer : ofSystems [.typography] = .ok typographer :=
  eq_ok_getD (by decide +kernel) blank

theorem refers_typesetting :
    ∀ e ∈ typesetting, ∀ ref ∈ e.refs, typographer.lexicon.Refers ref := by
  simp [typesetting, Event.refs, Query.refs, Lexicon.Refers]

theorem fits_points : (after typesetting typographer).lexicon.Fits
    (after typesetting typographer).store points := by
  have tabled := tabled_ofSystems ofSystems_typographer
  rw [((coherent_ofSystems ofSystems_typographer).after tabled refers_typesetting).lexicon]
  exact fits_of_checks tabled (by decide +kernel)

/-- A pica of pixels to the point is as much as twelve pixels. -/
theorem pica_converted :
    ofSystems [.typography] = .ok typographer ∧
      (∀ e ∈ typesetting, ∀ ref ∈ e.refs, typographer.lexicon.Refers ref) ∧
      (after typesetting typographer).lexicon.Fits (after typesetting typographer).store points ∧
      ((conversion (.symbol "P*px/p") (.symbol "px")).apply (after typesetting typographer)).1 =
        .ok (some ⟨"L", "P*px/p", "px", ⟨12, 0⟩⟩) ∧
      ∃ u v : Compound ℚ, typographer.lexicon.parse "P*px/p" = .ok u ∧
        typographer.lexicon.parse "px" = .ok v ∧ u.size points = 12 * v.size points := by
  have given : ((conversion (.symbol "P*px/p") (.symbol "px")).apply
      (after typesetting typographer)).1 = .ok (some ⟨"L", "P*px/p", "px", ⟨12, 0⟩⟩) := by
    decide +kernel
  have refers : ∀ text, typographer.lexicon.Refers (.symbol text) := fun _ => trivial
  obtain ⟨u, v, meantSrc, meantDest, _, _, holds⟩ :=
    conversion_sound ofSystems_typographer refers_typesetting fits_points (refers "P*px/p")
      (refers "px") (.inl given)
  exact ⟨ofSystems_typographer, refers_typesetting, fits_points, given, u, v, meantSrc, meantDest,
    holds⟩

end Metrology.Session
