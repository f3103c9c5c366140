import Metrology.Proofs.Session.Atomicity
import Metrology.Proofs.Session.NormalForm
import Metrology.Proofs.Session.Recent
import Metrology.Proofs.Session.Reducible
import Metrology.Proofs.Unit.BaseProduct

/-!
# Base units stay anchored

An SI base unit is reduced by its prefix, along the route from its unit to itself. This route has
the factor 1, whatever conversions are registered, so what a session remembers of it and of base
units is the same at all times. A product of base units is reduced by the factor 1: the prefixes
that are divided out are multiplied back, to the same powers.
-/
namespace Metrology

theorem Factor.one_pow {K : Type} [Field K] [LinearOrder K] [IsStrictOrderedRing K] [Scalar K]
    [Scalar.Exact K] (n : Int) : (Factor.one : Factor K).pow n = .ok .one := by
  rw [Factor.one_eq, Factor.pow]
  split
  next => rw [Factor.one_eq]
  next => simp [Scalar.Exact.pow_eq, Scalar.Exact.mul_eq, Except.map]

namespace Session

open Metrology.Action (Yields)

/-! ### Questions about known units -/

section
variable {K : Type} [Scalar K] {o : Session K} {I : Session K → Prop}

/-- An invariant that does not depend on the answers is kept by questions about units of the lexicon
if looking up routes and factors keeps it. -/
theorem KeptByRoutes.keptAmong (kept : KeptByRoutes (·.Sound o.lexicon.Names) I)
    (indexed : o.lexicon.Indexed) (lexicon : ∀ s, I s → s.lexicon = o.lexicon)
    (answers : ∀ d s key found, I s → I (s.putChart d { s.chart d with
      answers := (s.chart d).answers.put key found })) :
    KeptAmong o (·.Sound o.lexicon.Names) (·.Sound o.lexicon.Names) I := by
  have merges {u : Compound K} (sound : u.Sound o.lexicon.Names) :
      (mergeFactor u).Keeps I fun x => x.2.Sound o.lexicon.Names := by
    have single {t v : Term K} {x : Compound K} (mem : t ∈ u.terms)
        (made : t.withoutExponent = .ok v) (meant : Compound.ofTerms [v] = .ok x) :
        (mergeFactor x).Keeps I fun y => y.2.Sound o.lexicon.Names := by
      rw [mergeFactor_term made (show o.lexicon.deref (.term v) = .ok x from meant)]
      exact .pure (sound_of_hasPart sound ⟨t, mem, v, made, meant⟩)
    have keeps : (mergeFactor u).Keeps I fun _ => True :=
      mergeFactor_keeps fun t mem h mem' => termConversion_keeps fun d v w made made' =>
        conversionIn_keeps (fun _ _ _ _ meant meant' =>
          kept.compute d (single mem made meant) (single mem' made' meant')) (answers d)
    exact fun s holds => ⟨keeps.invariant holds,
      fun r given => (unjoined_of_mergeFactor sound (Prod.ext given rfl)).1⟩
  exact {
    lexicon := lexicon
    expands := fun value u x v sound expanded product => by
      have terms := sound_of_expandTerms indexed sound.terms expanded
      exact Compound.sound_of_ofTerms (fun t mem => (terms t mem).1) product
    conversion := fun d src dest asksSrc asksDest =>
      conversionIn_keeps (fun s u v holds meant meant' => by
        rw [lexicon s holds] at meant meant'
        exact kept.compute d (merges (asksSrc u meant).1) (merges (asksDest v meant').1))
        (answers d)
    merging := fun u sound _ => (merges sound).weaken fun _ _ => trivial
    reduction := fun u bridging sound => kept.toBase sound bridging
    edges := fun s d holds => (kept.edges d).invariant holds
    network := kept.network
    route := kept.route }

end

/-! ### What is remembered of base units -/

section
variable {K : Type} [Field K] [Scalar K] {o s : Session K} {base : Axis → Term K}
  {d : Dimension}

/-- Routes that know each node to lead to itself by the factor 1, where they know it. -/
def Looped (d : Dimension) (r : Routes K) : Prop :=
  ∀ x found, r.known.get? (x, x) = some found → found = some ⟨d.code, x, x, .one⟩

/-- A session with the units of another one, whose edges can be built: what it remembers of a node
and itself is the factor 1, and of a base unit the inverse of its prefix. -/
structure Anchored (o : Session K) (base : Axis → Term K) (s : Session K) : Prop where
  lexicon : s.lexicon = o.lexicon
  buildable : s.Buildable
  routes : ∀ d r, (s.chart d).routes = some r → Looped d r
  factors : ∀ a bridging found,
    s.baseFactors.get? ((base a).unit.asciiSymbol, bridging) = some found →
    found = some ⟨(base a).scalingMultiplier⁻¹, 0⟩

theorem Forgotten.anchored (forgotten : o.Forgotten) (buildable : o.Buildable) :
    Anchored o base o where
  lexicon := rfl
  buildable := buildable
  routes d r known := by
    rw [forgotten.chart] at known
    cases known
  factors a bridging found known := by
    rw [forgotten.baseFactors] at known
    cases known

omit [Field K] in
theorem Buildable.edgesOf (buildable : s.Buildable) (d : Dimension) :
    Buildable { s with store := ((EdgeStore.edgesOf s.lexicon d).apply s.store).2 } :=
  fun e => (EdgeStore.current_edgesOf s.lexicon s.store d e).symm ▸ buildable e

namespace Anchored

theorem edgesOf (anchored : Anchored o base s) (d : Dimension) : Anchored o base
    { s with store := ((EdgeStore.edgesOf s.lexicon d).apply s.store).2 } :=
  ⟨anchored.lexicon, anchored.buildable.edgesOf d, anchored.routes, anchored.factors⟩

theorem putRoutes (anchored : Anchored o base s) {r : Routes K} (looped : Looped d r) :
    Anchored o base (s.putChart d { s.chart d with routes := some r }) where
  lexicon := anchored.lexicon
  buildable := anchored.buildable
  routes := forall_putChart (P := fun d c => ∀ r, c.routes = some r → Looped d r)
    (fun _ same => Option.some.inj same ▸ looped) anchored.routes
  factors := anchored.factors

theorem putAnswers (anchored : Anchored o base s)
    (answers : Register EdgeKey (Option (Conversion K))) :
    Anchored o base (s.putChart d { s.chart d with answers := answers }) where
  lexicon := anchored.lexicon
  buildable := anchored.buildable
  routes := forall_putChart (P := fun d c => ∀ r, c.routes = some r → Looped d r)
    (anchored.routes d) anchored.routes
  factors := anchored.factors

end Anchored

theorem yields_routes : (routes d).Yields (Anchored o base) (Looped d) := by
  intro s anchored
  obtain ⟨es, built⟩ := anchored.buildable d
  have later := anchored.edgesOf d
  rw [routes_apply]
  cases known : (s.chart d).routes with
  | some r => exact ⟨anchored, r, rfl, anchored.routes d r known⟩
  | none =>
    rw [EdgeStore.current] at built
    rcases run : (EdgeStore.edgesOf s.lexicon d).apply s.store with ⟨e | es', store⟩
    · rw [run] at built
      cases built
    · rw [run] at later
      have looped (net : Network K) : Looped d (.ofNetwork net) := fun _ _ known => by cases known
      exact ⟨later.putRoutes (looped _), _, rfl, looped _⟩

/-- A node leads to itself by the factor 1, and no other route changes that. -/
theorem Anchored.route (anchored : Anchored o base s) (x y : String) :
    Anchored o base ((Session.route d x y).apply s).2 ∧
      (x = y → ((Session.route d x y).apply s).1 = .ok (some ⟨d.code, x, x, .one⟩)) := by
  obtain ⟨kept, r, given, looped⟩ := yields_routes (d := d) s anchored
  rw [route_apply]
  rcases run : (Session.routes d).apply s with ⟨_ | r', t⟩
  · rw [run] at given
    cases given
  · rw [run] at kept given
    obtain rfl := Except.ok.inj given
    dsimp only
    rw [Routes.route_apply]
    cases known : r'.known.get? (x, y) with
    | some found =>
      refine ⟨kept.putRoutes looped, ?_⟩
      rintro rfl
      exact congrArg Except.ok (looped x found known)
    | none =>
      rcases search : (Network.search d.code x y).apply r'.network with ⟨e | found, net⟩
      · refine ⟨kept.putRoutes looped, ?_⟩
        rintro rfl
        rw [Routes.search_same] at search
        cases search
      · have loop : x = y → found = some ⟨d.code, x, x, .one⟩ := by
          rintro rfl
          rw [Routes.search_same] at search
          exact (Except.ok.inj (Prod.mk.inj search).1).symm
        have later : Looped d ⟨net, r'.known.put (x, y) found⟩ := by
          intro z found' known'
          rw [Register.get?_put] at known'
          split at known'
          next own =>
            obtain ⟨rfl, rfl⟩ := Prod.mk.inj own
            exact Option.some.inj known' ▸ loop rfl
          next => exact looped z found' known'
        exact ⟨kept.putRoutes later, fun same => congrArg Except.ok (loop same)⟩

theorem yields_loop (x : String) :
    (Session.route d x x).Yields (Anchored o base) (· = some ⟨d.code, x, x, .one⟩) :=
  fun _ anchored => ⟨(anchored.route x x).1, _, (anchored.route x x).2 rfl, rfl⟩

end

section
variable {K : Type} [Field K] [LinearOrder K] [IsStrictOrderedRing K] [Scalar K] [Scalar.Exact K]
variable {o s : Session K} {base : Axis → Term K}
variable (tabled : o.lexicon.Tabled) (bases : ∀ a, o.lexicon.IsBase a (base a))
include tabled bases

/-- A base unit is reduced by the inverse of its prefix. -/
theorem yields_reduceBase (a : Axis) : (reduceBase (base a).unit a).Yields (Anchored o base)
    (· = some ⟨(base a).scalingMultiplier⁻¹, 0⟩) := by
  have nonzero : (base a).scalingMultiplier ≠ 0 :=
    tabled.scalingMultiplier_ne_zero (bases a).sound.base
  have multiplier : (base a).multiplier = .ok (base a).scalingMultiplier := by
    rw [Term.multiplier, (bases a).exponent, Scalar.Exact.pow_eq (.inl nonzero), zpow_one]
  have quotient : Factor.one.div (.exact (base a).scalingMultiplier) =
      .ok ⟨(base a).scalingMultiplier⁻¹, 0⟩ := by
    rw [Factor.div_eq nonzero, Factor.one_eq]
    simp [Factor.exact, Scalar.Exact.zero_eq]
  refine .bind .get fun t anchored => ?_
  dsimp only
  rw [anchored.lexicon, if_pos (bases a).listed, (bases a).read]
  refine .bind (.lift ⟨_, rfl, rfl⟩) fun _ same => ?_
  subst same
  refine .bind (yields_loop _) fun _ same => ?_
  subst same
  refine .bind (.lift ⟨_, multiplier, rfl⟩) fun _ same => ?_
  subst same
  refine .bind (.lift ⟨_, quotient, rfl⟩) fun _ same => ?_
  subst same
  exact .pure rfl

omit [IsStrictOrderedRing K] [Field K] [LinearOrder K] [Scalar.Exact K] tabled in
theorem factorAnew_base (depth : Nat) (bridging : Bool) (a : Axis) :
    factorAnew depth bridging (base a).unit = reduceBase (base a).unit a := by
  rw [factorAnew, (bases a).dimension, Dimension.baseAxis?_ofAxis]

/-- What reducing any unit remembers is right, as far as base units are concerned. -/
theorem Anchored.reduceUnit (anchored : Anchored o base s) {depth : Nat} {bridging : Bool}
    {u : NamedUnit K} (found : o.lexicon.find? u.asciiSymbol = some u)
    (finds : (factorAnew depth bridging u).Keeps (Anchored o base) fun _ => True) :
    Anchored o base ((Session.reduceUnit (depth + 1) bridging u).apply s).2 := by
  have kept := finds.invariant anchored
  rw [reduceUnit_apply]
  cases s.baseFactors.get? (u.asciiSymbol, bridging) with
  | some known => exact anchored
  | none =>
    rcases run : (factorAnew depth bridging u).apply s with ⟨e | new, t⟩
    · rw [run] at kept
      exact kept
    · rw [run] at kept
      refine ⟨kept.lexicon, kept.buildable, kept.routes, fun a bridging' found' known => ?_⟩
      rw [Register.get?_put] at known
      split at known
      next own =>
        obtain ⟨ascii, rfl⟩ := Prod.mk.inj own
        have unit : u = (base a).unit := by
          have listed := (bases a).sound.base.1
          rw [← ascii, found] at listed
          exact Option.some.inj listed
        subst unit
        obtain ⟨_, x, given, rfl⟩ := yields_reduceBase tabled bases a s anchored
        rw [← factorAnew_base bases, run] at given
        rw [← Option.some.inj known]
        exact Except.ok.inj given
      next => exact kept.factors a _ found' known

/-- Looking up routes and factors of units of the lexicon leaves the base units anchored. -/
theorem keptByRoutes_anchored : KeptByRoutes (·.Sound o.lexicon.Names) (Anchored o base) where
  reads s text c anchored read := tabled.sound_of_parse (anchored.lexicon ▸ read)
  strips c u sound bare := sound.withoutPrefixes bare
  edges d s anchored := ⟨anchored.edgesOf d, fun _ _ => trivial⟩
  routes d := fun s anchored => ⟨(yields_routes s anchored).1, fun _ _ => trivial⟩
  route d x y s anchored := ⟨(anchored.route x y).1, fun _ _ => trivial⟩
  factor depth bridging u occurs finds s anchored := by
    obtain ⟨c, sound, t, mem, rfl⟩ := occurs
    exact ⟨anchored.reduceUnit tabled bases (sound.terms t mem).1.base.1 finds, fun _ _ => trivial⟩

/-- A base unit is reduced as before where its factor is remembered. -/
theorem yields_reduceUnit_base (depth : Nat) (bridging : Bool) (a : Axis) :
    (reduceUnit (depth + 1) bridging (base a).unit).Yields (Anchored o base)
      (· = some ⟨(base a).scalingMultiplier⁻¹, 0⟩) := by
  intro s anchored
  have finds : (factorAnew depth bridging (base a).unit).Yields (Anchored o base)
      (· = some ⟨(base a).scalingMultiplier⁻¹, 0⟩) :=
    factorAnew_base bases depth bridging a ▸ yields_reduceBase tabled bases a
  refine ⟨anchored.reduceUnit tabled bases (bases a).sound.base.1 fun t kept =>
    ⟨(finds t kept).1, fun _ _ => trivial⟩, ?_⟩
  rw [reduceUnit_apply]
  cases known : s.baseFactors.get? ((base a).unit.asciiSymbol, bridging) with
  | some found => exact ⟨found, rfl, anchored.factors a bridging found known⟩
  | none =>
    obtain ⟨_, x, given, same⟩ := finds s anchored
    rcases run : (factorAnew depth bridging (base a).unit).apply s with ⟨e | found, t⟩
    · rw [run] at given
      cases given
    · rw [run] at given
      exact ⟨found, rfl, Except.ok.inj given ▸ same⟩

/-- The prefix of a base unit and the factor that this is reduced by cancel, to every power. -/
theorem yields_toBase_baseTerms (v : Exponents) (bridging : Bool) :
    (toBase ⟨Lexicon.baseTerms base v⟩ bridging).Yields (Anchored o base) (· = some .one) := by
  have cancels (a : Axis) (n : Int) : ((Factor.exact (base a).scalingMultiplier).mul
      ⟨(base a).scalingMultiplier⁻¹, 0⟩).pow n = .ok .one := by
    have nonzero : (base a).scalingMultiplier ≠ 0 :=
      tabled.scalingMultiplier_ne_zero (bases a).sound.base
    have product : (Factor.exact (base a).scalingMultiplier).mul
        ⟨(base a).scalingMultiplier⁻¹, 0⟩ = .one := by
      rw [Factor.mul_eq, Factor.one_eq]
      simp [Factor.exact, Scalar.Exact.zero_eq, nonzero]
    rw [product, Factor.one_pow]
  refine .bind .get fun s _ => ?_
  dsimp only
  rw [show s.reductionDepth = 2 * s.lexicon.units.size + 3 + 1 from rfl]
  generalize 2 * s.lexicon.units.size + 3 = depth
  rw [Lexicon.baseTerms]
  induction v.filter fun row => row.2 ≠ 0 with
  | nil => exact .pure rfl
  | cons row rest ih =>
    refine .bind (yields_reduceUnit_base tabled bases depth bridging row.1) fun _ same => ?_
    subst same
    refine .bind (.lift ⟨_, cancels row.1 row.2, rfl⟩) fun _ same => ?_
    subst same
    rw [show (Factor.one : Factor K).mul .one = .one by simp [Factor.mul_eq, Factor.one_eq]]
    exact ih

end

end Session

/-! ### Sessions made from systems -/

section
variable {K : Type} [Scalar K]

theorem Session.Buildable.event {s : Session K} (buildable : s.Buildable) (e : Event K) :
    (e.after s).Buildable := by
  intro d
  cases e with
  | ask q =>
    have asked := (SameRegistries.refl s).ask q
    rw [Event.after, asked.lexicon, asked.edges d]
    exact buildable d
  | addConversion src dest factor =>
    rw [Event.after, lexicon_addConversion, store_addConversion]
    exact (EdgeStore.editsBuilt_add src dest factor).isOk (buildable d)
  | removeConversion src dest =>
    rw [Event.after, lexicon_removeConversion, store_removeConversion]
    exact (EdgeStore.editsBuilt_remove src dest).isOk (buildable d)

end

namespace Session

section
variable {K : Type} [Field K] [LinearOrder K] [IsStrictOrderedRing K] [Scalar K] [Scalar.Exact K]
variable {systems : List MeasurementSystem} {s : Session K} {base : Axis → Term K}
  {events : List (Event K)}

/-- Base units stay anchored, whatever conversions are added and removed and whatever is asked of
known units. -/
theorem anchored_after (made : ofSystems systems = .ok s)
    (bases : ∀ a, s.lexicon.IsBase a (base a))
    (known : ∀ q, .ask q ∈ events → ∀ ref ∈ q.refs, s.lexicon.Refers ref) :
    Anchored s base (after events s) := by
  have buildable : s.Buildable := fun d => by
    rw [(blank_of_ofSystems made).1]
    exact EdgeStore.current_isOk (tabled_ofSystems made) d
  obtain ⟨o, ⟨lexicon, buildable'⟩, forgotten, reached⟩ :
      ∃ o : Session K, (o.lexicon = s.lexicon ∧ o.Buildable) ∧ o.Forgotten ∧
        o.Reached (recent [] events s) (after events s) :=
    exists_origin (fun t e ⟨same, own⟩ => ⟨(lexicon_event e t).trans same, own.event e⟩)
      ⟨rfl, buildable⟩ (blank_of_ofSystems made).2 .start ⟨rfl, buildable⟩
  have tabled := tabled_ofSystems made
  rw [← lexicon] at tabled bases known
  have kept := (keptByRoutes_anchored tabled bases).keptAmong tabled.indexed
    (fun _ anchored => anchored.lexicon) fun _ _ _ _ anchored => anchored.putAnswers _
  have asked : ∀ q ∈ recent [] events s, ∀ ref ∈ q.refs, o.lexicon.Refers ref := by
    intro q mem
    rcases mem_recent mem with old | own
    · cases old
    · exact known q own
  have anchored : Anchored o base (after events s) :=
    reached.unchanged.keepsAmong kept (forgotten.anchored buildable')
      (fun q mem ref isRef _ meant => tabled.indexed.sound_of_deref (asked q mem ref isRef) meant)
      fun q mem _ compares => q.sound_of_compares tabled.indexed (asked q mem) compares
  exact ⟨anchored.lexicon.trans lexicon, anchored.buildable, anchored.routes, anchored.factors⟩

end

end Session

end Metrology
