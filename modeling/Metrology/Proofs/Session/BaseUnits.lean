import Metrology.Proofs.Catalogue.Loading
import Metrology.Proofs.Dimension.Algebra
import Metrology.Proofs.Session.Anchoring

/-!
# The SI unit of a dimension

With the SI and everyday units, every axis has its base unit. The SI unit of a dimension is the
product of these to the powers that a code of the dimension lists, in whatever order and however
often it names an axis.
-/
namespace Metrology

/-! ### Registered base units -/

namespace Catalogue

/-- The SI base unit of every axis, without its prefix, is tabled for the SI or for everyday use. -/
theorem exists_base_row : ∀ a ∈ Axis.all, ∃ row ∈ units, row.2.asciiSymbol = a.plainSymbol ∧
    ∃ system ∈ [MeasurementSystem.si, .everyday], row.2.systems.contains system = true := by
  decide +kernel

end Catalogue

section
variable {K : Type} [Scalar K]

namespace Lexicon

variable {lex more : Lexicon K} {system : MeasurementSystem}

/-- The ASCII symbol of every unit that is tabled for the system is taken, by it or another unit. -/
def Offers (lex : Lexicon K) (system : MeasurementSystem) : Prop :=
  ∀ row ∈ Catalogue.units, row.2.systems.contains system = true →
    lex.contains row.2.asciiSymbol = true

theorem Consistent.loaded (consistent : lex.Consistent) {n : Nat}
    (run : (loadSystem system).apply lex = (.ok n, more)) : more.Consistent := by
  have kept := (keepsConsistent_loadSystem system lex.prefixes).invariant ⟨consistent, rfl⟩
  rw [run] at kept
  exact kept.1

/-- Loading a system takes its symbols, and frees none. -/
theorem Consistent.offers_of_loadSystem (consistent : lex.Consistent) {n : Nat}
    (run : (loadSystem system).apply lex = (.ok n, more)) :
    more.Offers system ∧ ∀ other, lex.Offers other → more.Offers other := by
  obtain ⟨mid, rows, _, units, symbols⟩ := loadSystem_eq_ok run
  obtain ⟨new, _, extended⟩ := consistent.extended_of_loadRows rows
  refine ⟨fun row isRow belongs => ?_, fun other offers row isRow belongs => ?_⟩
  · obtain ⟨v, listed⟩ := consistent.taken_of_loadRows rows row isRow belongs
    have own := ((consistent.loaded run).listed _ v).mp (units ▸ listed)
    exact Option.isSome_iff_exists.mpr ⟨v, own.1⟩
  · obtain ⟨v, found⟩ := Option.isSome_iff_exists.mp (offers row isRow belongs)
    have later := extended.found _ v found
    rw [find?, ← symbols] at later
    exact Option.isSome_iff_exists.mpr ⟨v, later⟩

end Lexicon

namespace Session

variable {systems : List MeasurementSystem} {s t : Session K}

theorem offers_of_loadSystems (consistent : s.lexicon.Consistent)
    (run : (loadSystems systems).apply s = (.ok ⟨⟩, t)) :
    (∀ system ∈ systems, t.lexicon.Offers system) ∧
      ∀ other, s.lexicon.Offers other → t.lexicon.Offers other := by
  induction systems generalizing s with
  | nil =>
    obtain ⟨_, rfl⟩ := Prod.mk.inj run
    exact ⟨fun _ mem => absurd mem List.not_mem_nil, fun _ offers => offers⟩
  | cons system rest ih =>
    obtain ⟨n, mid, first, run⟩ := Action.bind_apply_eq_ok.mp run
    rw [onLexicon, Action.onPart, Action.apply_ofFn] at first
    rcases load : (Lexicon.loadSystem system).apply s.lexicon with ⟨e | m, lex⟩
    · rw [load] at first
      cases (Prod.mk.inj first).1
    · rw [load] at first
      obtain ⟨_, rfl⟩ := Prod.mk.inj first
      obtain ⟨own, kept⟩ := consistent.offers_of_loadSystem load
      obtain ⟨others, kept'⟩ := ih (consistent.loaded load) run
      exact ⟨List.forall_mem_cons.mpr ⟨kept' _ own, others⟩, fun other was => kept' _ (kept _ was)⟩

/-- The systems that a session is made from are loaded. -/
theorem offers_ofSystems (made : ofSystems systems = .ok s) :
    ∀ system ∈ systems, s.lexicon.Offers system := by
  obtain ⟨_, run⟩ := loaded_of_ofSystems made
  exact (offers_of_loadSystems (Lexicon.consistent_ofPrefixes _) run).1

/-- Every axis has its base unit. -/
theorem exists_bases (made : ofSystems systems = .ok s) (si : .si ∈ systems)
    (everyday : .everyday ∈ systems) :
    ∃ base : Axis → Term K, ∀ a, s.lexicon.IsBase a (base a) := by
  have tabled := tabled_ofSystems made
  have each (a : Axis) : ∃ t, s.lexicon.IsBase a t := by
    obtain ⟨row, isRow, ascii, system, among, belongs⟩ := Catalogue.exists_base_row a a.mem_all
    have loaded : system ∈ systems := by
      rcases List.mem_cons.mp among with rfl | rest
      · exact si
      · exact List.mem_singleton.mp rest ▸ everyday
    exact tabled.exists_isBase (ascii ▸ offers_ofSystems made system loaded row isRow belongs)
  exact ⟨fun a => (each a).choose, fun a => (each a).choose_spec⟩

end Session
end

/-! ### The SI unit of a dimension -/

namespace Session

section
variable {K : Type} [Scalar K]

/-- The SI unit of the dimension that a code stands for, valid or not. -/
def siUnitOf (code : String) : Action (Session K) (Compound K) := do
  siUnit (← Dimension.decompose code)

theorem siUnit_apply (v : Exponents) (s : Session K) :
    (siUnit v).apply s = (s.lexicon.baseProduct v, s) := by
  have terms : (v.filter fun row => row.2 ≠ 0).mapM (fun row => do
        let t ← (liftM (s.lexicon.siTerm row.1) : Action (Session K) (Term K))
        t.withExponent row.2 : Axis × Int → Action (Session K) (Term K)) =
      liftM ((v.filter fun row => row.2 ≠ 0).mapM fun row => do
        (← s.lexicon.siTerm row.1).withExponent row.2) := by
    rw [← Action.mapM_lift]
    refine congrArg (fun f => List.mapM f _) (funext fun row => Action.ext fun t => ?_)
    rw [Action.apply_bind, Action.apply_lift, Action.apply_lift]
    cases s.lexicon.siTerm row.1 <;> rfl
  rw [siUnit, Action.apply_bind, Action.apply_get]
  dsimp only
  rw [terms, Action.apply_bind, Action.apply_lift, Lexicon.baseProduct]
  cases (v.filter fun row => row.2 ≠ 0).mapM fun row => do
    (← s.lexicon.siTerm row.1).withExponent row.2 <;> rfl

theorem siUnitOf_apply (code : String) (s : Session K) :
    (siUnitOf code).apply s = (Dimension.decompose code >>= s.lexicon.baseProduct, s) := by
  rw [siUnitOf, Action.apply_bind, Action.apply_lift]
  cases Dimension.decompose code with
  | error e => rfl
  | ok v => exact siUnit_apply v s

end

section
variable {K : Type} [Field K] [LinearOrder K] [IsStrictOrderedRing K] [Scalar K] [Scalar.Exact K]
variable {systems : List MeasurementSystem} {s : Session K} {events : List (Event K)}

/-- **The SI unit of a dimension has that dimension.** A session is made from systems among which
are the SI and everyday units, so every axis has its base unit; conversions are added and removed,
and known units are asked about. Then a valid code, normalized or not, has an SI unit if and only if
it can be normalized. The unit has the dimension that this gives, and so has what its symbol is read
as, and it is reduced by the factor 1, without an error. -/
theorem si_unit_has_dimension (made : ofSystems systems = .ok s) (si : .si ∈ systems)
    (everyday : .everyday ∈ systems)
    (known : ∀ q, .ask q ∈ events → ∀ ref ∈ q.refs, s.lexicon.Refers ref) {code : String}
    (valid : Dimension.isCode code = true) :
    ((∃ e, ((siUnitOf code).apply (after events s)).1 = .error e) ↔
        ∃ e, Dimension.normalize code = .error e) ∧
      ∀ u, ((siUnitOf code).apply (after events s)).1 = .ok u → ∃ d : Dimension,
        u.dimension = .ok d ∧ Dimension.normalize code = .ok d.code ∧
        (∀ script, ∃ w, (after events s).lexicon.parse (u.write script) = .ok w ∧
          w.dimension = .ok d) ∧
        ∀ bridging, ((toBase u bridging).apply (after events s)).1 = .ok (some ⟨1, 0⟩) := by
  have tabled := tabled_ofSystems made
  obtain ⟨base, bases⟩ := exists_bases made si everyday
  have anchored := anchored_after made bases known
  obtain ⟨d, total⟩ := Dimension.isCode_iff.mp valid
  obtain ⟨v, read, distinct, rfl⟩ := Dimension.totalOf_eq_ok.mp total
  have normal : Dimension.normalize code = v.toDimension.canonical :=
    Dimension.normalize_of_total total
  have given (u : Compound K) : ((siUnitOf code).apply (after events s)).1 = .ok u ↔
      v.toDimension.InRange ∧ u = ⟨Lexicon.baseTerms base v⟩ := by
    rw [siUnitOf_apply, read, anchored.lexicon]
    exact Lexicon.baseProduct_eq_ok_iff bases tabled distinct
  have canonical (c : String) : Dimension.normalize code = .ok c ↔
      v.toDimension.InRange ∧ v.toDimension.code = c := normal ▸ Dimension.canonical_eq_ok
  refine ⟨?_, fun u isUnit => ?_⟩
  · have refused {α : Type} (x : Except Error α) : (∃ e, x = .error e) ↔ ¬ ∃ y, x = .ok y := by
      cases x <;> simp
    rw [refused, refused]
    simp only [given, canonical, exists_and_left, exists_eq, exists_eq', and_true]
  · obtain ⟨range, rfl⟩ := (given u).mp isUnit
    have product : s.lexicon.baseProduct v = .ok ⟨Lexicon.baseTerms base v⟩ :=
      (Lexicon.baseProduct_eq_ok_iff bases tabled distinct).mpr ⟨range, rfl⟩
    obtain ⟨dimension, readBack⟩ := Lexicon.dimension_of_baseProduct bases tabled distinct product
    refine ⟨v.toDimension, dimension, (canonical _).mpr ⟨range, rfl⟩,
      fun script => anchored.lexicon ▸ readBack script, fun bridging => ?_⟩
    obtain ⟨_, _, reduced, rfl⟩ := yields_toBase_baseTerms tabled bases v bridging _ anchored
    rw [reduced, Factor.one_eq]

end

/-- A session with SI and everyday units. -/
def metrologist : Session ℚ := (ofSystems [.si, .everyday]).toOption.getD blank

theorem ofSystems_metrologist : ofSystems [.si, .everyday] = .ok metrologist :=
  eq_ok_getD (by decide +kernel) blank

/-- Of a kilogram it is said that it is two grams, and a force is reduced. -/
def weighing : List (Event ℚ) :=
  [.addConversion "kg" "g" ⟨2, 0⟩, .ask (.toBase (.symbol "kN") true)]

/-- The SI unit of force, from a code with mass in two places and an angle to the power of zero. -/
theorem newton_in_base_units : ∃ u : Compound ℚ,
    ofSystems [.si, .everyday] = .ok metrologist ∧
    (∀ q, .ask q ∈ weighing → ∀ ref ∈ q.refs, metrologist.lexicon.Refers ref) ∧
    Dimension.isCode "A0M2T-2LM-1" = true ∧ Dimension.normalize "A0M2T-2LM-1" = .ok "MLT-2" ∧
    ((siUnitOf "A0M2T-2LM-1").apply (after weighing metrologist)).1 = .ok u ∧
    u.dimension.map Dimension.code = .ok "MLT-2" ∧
    ((toBase u true).apply (after weighing metrologist)).1 = .ok (some ⟨1, 0⟩) := by
  have known : ∀ q, .ask q ∈ weighing → ∀ ref ∈ q.refs, metrologist.lexicon.Refers ref := by
    intro q mem
    obtain rfl : q = .toBase (.symbol "kN") true := by simpa [weighing] using mem
    simp [Query.refs, Lexicon.Refers]
  have valid : Dimension.isCode "A0M2T-2LM-1" = true := by decide +kernel
  have normal : Dimension.normalize "A0M2T-2LM-1" = .ok "MLT-2" := by decide +kernel
  obtain ⟨refused, spec⟩ :=
    si_unit_has_dimension ofSystems_metrologist (by simp) (by simp) known valid
  cases given : ((siUnitOf "A0M2T-2LM-1").apply (after weighing metrologist)).1 with
  | error e =>
    obtain ⟨e', failed⟩ := refused.mp ⟨e, given⟩
    rw [normal] at failed
    cases failed
  | ok u =>
    obtain ⟨d, dimension, canonical, _, reduced⟩ := spec u given
    rw [normal] at canonical
    have coded : u.dimension.map Dimension.code = .ok "MLT-2" := by
      rw [dimension, Except.ok.inj canonical]
      rfl
    exact ⟨u, ofSystems_metrologist, known, valid, normal, rfl, coded, reduced true⟩

end Session

end Metrology
