import Metrology.Proofs.Graph.Agreement
import Metrology.Proofs.Session.NonZero
import Metrology.Proofs.Session.Provenance

/-!
# What a session remembers beside another

One session remembers nothing, another one was asked questions since it was in that state. What the
latter remembers is what the former would find out, but for relative errors: its routes are right, its
factors are those that units reduce to without a memory, and its conversions are those that the former
computes. Looking up routes keeps that.
-/
namespace Metrology

variable {K : Type} [Field K] [LinearOrder K] [Scalar K]

/-- Conversions between the same units whose factors agree. -/
structure Conversion.Agrees (P : Prop) (c c' : Conversion K) : Prop where
  dimension : c.dimension = c'.dimension
  src : c.src = c'.src
  dest : c.dest = c'.dest
  factor : c.factor.Agrees P c'.factor

omit [LinearOrder K] [Scalar K] in
theorem Conversion.Agrees.symm {P : Prop} {c c' : Conversion K} (agrees : c.Agrees P c') :
    c'.Agrees P c :=
  ⟨agrees.dimension.symm, agrees.src.symm, agrees.dest.symm, agrees.factor.symm⟩

omit [LinearOrder K] [Scalar K] in
theorem Conversion.Agrees.trans {P : Prop} {c c' c'' : Conversion K} (first : c.Agrees P c')
    (second : c'.Agrees P c'') : c.Agrees P c'' :=
  ⟨first.dimension.trans second.dimension, first.src.trans second.src,
    first.dest.trans second.dest, first.factor.trans second.factor⟩

namespace Session

/-- The registered conversions of no dimension contradict one another. -/
def Balanced (s : Session K) : Prop :=
  ∀ d es, EdgeStore.current s.lexicon s.store d = .ok es → es.Consistent

/-- Sizes that fit the conversions show that they do not contradict one another. -/
theorem Coherent.balanced [IsStrictOrderedRing K] [Scalar.Exact K] {lex : Lexicon K} {s : Session K}
    (tabled : lex.Tabled) (coherent : s.Coherent lex) {size : NamedUnit K → K}
    (fits : lex.Fits s.store size) : s.Balanced := by
  intro d es registered
  rw [coherent.lexicon] at registered
  have joins := (EdgeStore.keeps_edgesOf tabled d).answer coherent.kept registered
  refine ⟨lex.textSize size, fun text => ?_, fun key c edge => ?_⟩
  · unfold Lexicon.textSize
    split
    next u read => exact fits.size_ne_zero tabled (tabled.sound_of_parse read)
    next => exact one_ne_zero
  · have mem := Register.mem_rows_of_get? edge
    obtain ⟨holds, _⟩ := fits.edge tabled registered mem (joins _ mem)
    obtain ⟨ends, _⟩ := joins _ mem
    obtain rfl : key = (c.src, c.dest) := ends
    exact holds

/-- Factors that agree, or none on either side. -/
abbrev FactorsAgree (o : Session K) : Option (Factor K) → Option (Factor K) → Prop :=
  Option.Rel (Factor.Agrees o.Balanced)

/-- Conversions that agree, or none on either side. -/
abbrev ConversionsAgree (o : Session K) : Option (Conversion K) → Option (Conversion K) → Prop :=
  Option.Rel (Conversion.Agrees o.Balanced)

omit [LinearOrder K] in
theorem factorsAgree_trans {o : Session K} {x y z : Option (Factor K)} (first : o.FactorsAgree x y)
    (second : o.FactorsAgree y z) : o.FactorsAgree x z :=
  rel_trans (S := Factor.Agrees o.Balanced) (fun _ _ _ here there => here.trans there) first second

omit [LinearOrder K] in
theorem factorsAgree_symm {o : Session K} {x y : Option (Factor K)} (agree : o.FactorsAgree x y) :
    o.FactorsAgree y x :=
  rel_symm (fun _ _ here => here.symm) agree

omit [LinearOrder K] in
theorem factorsMatch_trans {o : Session K} {x y z : Except Error (Option (Factor K))}
    (first : Matches o.FactorsAgree x y) (second : Matches o.FactorsAgree y z) :
    Matches o.FactorsAgree x z :=
  first.trans (S := o.FactorsAgree) (fun _ _ _ => factorsAgree_trans) second

omit [LinearOrder K] in
theorem factorsMatch_symm {o : Session K} {x y : Except Error (Option (Factor K))}
    (same : Matches o.FactorsAgree x y) : Matches o.FactorsAgree y x :=
  same.symm fun _ _ => factorsAgree_symm

omit [LinearOrder K] in
theorem conversionsAgree_trans {o : Session K} {x y z : Option (Conversion K)}
    (first : o.ConversionsAgree x y) (second : o.ConversionsAgree y z) : o.ConversionsAgree x z :=
  rel_trans (S := Conversion.Agrees o.Balanced) (fun _ _ _ here there => here.trans there) first
    second

omit [LinearOrder K] in
theorem conversionsAgree_symm {o : Session K} {x y : Option (Conversion K)}
    (agree : o.ConversionsAgree x y) : o.ConversionsAgree y x :=
  rel_symm (fun _ _ here => here.symm) agree

/-! ### Reduction without a memory -/

/-- The factor of a unit to SI base units where it is not remembered and further units are reduced by
`reduce`. -/
def factorBy (reduce : Bool → NamedUnit K → Action (Session K) (Option (Factor K))) (bridging : Bool)
    (unit : NamedUnit K) : Action (Session K) (Option (Factor K)) :=
  match unit.dimension.baseAxis? with
  | some a => reduceBase unit a
  | none =>
    match unit.expansion with
    | some expansion => do
      let expanded ← (← get).lexicon.parse expansion
      let base ← reduceTerms (reduce bridging) Factor.one expanded.terms
      pure (base.map (Factor.read unit.expansionMultiplier).mul)
    | none =>
      if bridging then do
        let net ← network unit.dimension
        bridge (reduce false) unit net.nodes
      else pure none

omit [Field K] [LinearOrder K] in
theorem factorAnew_eq (depth : Nat) (bridging : Bool) (unit : NamedUnit K) :
    factorAnew depth bridging unit = factorBy (reduceUnit depth) bridging unit := rfl

/-- What a unit reduces to if every step starts in the same session. -/
def reduction (o : Session K) : Nat → Bool → NamedUnit K → Except Error (Option (Factor K))
  | 0, _, unit => .error (.endlessExpansion unit.asciiSymbol)
  | depth + 1, bridging, unit =>
    ((factorBy (fun b u => liftM (o.reduction depth b u)) bridging unit).apply o).1

/-! ### The invariant -/

/-- What a session remembers is what another one finds out. Conversions between units that were not
asked for are left open. -/
structure Echoes (o : Session K) (asked : Compound K → Prop) (s : Session K) : Prop where
  registries : SameRegistries o s
  routes : ∀ d r, (s.chart d).routes = some r →
    ∃ es, EdgeStore.current o.lexicon o.store d = .ok es ∧ r.Right (drawn o.lexicon d es)
  factors : ∀ u bridging found, o.lexicon.find? u.asciiSymbol = some u →
    s.baseFactors.get? (u.asciiSymbol, bridging) = some found →
    Matches o.FactorsAgree (.ok found) (o.reduction o.reductionDepth bridging u)
  answers : ∀ d u v found, asked u → asked v →
    (s.chart d).answers.get? (u.write .ascii, v.write .ascii) = some found →
    Matches o.ConversionsAgree (.ok found) ((compute mergeFactor d u v).apply o).1

variable {o s : Session K} {asked : Compound K → Prop} {d : Dimension}

omit [LinearOrder K] in
theorem Forgotten.echoes (forgotten : o.Forgotten) : Echoes o asked o where
  registries := .refl _
  routes d r known := by simp [forgotten.chart, Chart.blank] at known
  factors u bridging found _ known := by simp [forgotten.baseFactors] at known
  answers d u v found _ _ known := by simp [forgotten.chart, Chart.blank] at known

omit [LinearOrder K] in
/-- The edges of a dimension may be built. -/
theorem Echoes.withStore (echoes : Echoes o asked s) {store : EdgeStore K}
    (registries : SameRegistries o { s with store := store }) :
    Echoes o asked { s with store := store } :=
  ⟨registries, echoes.routes, echoes.factors, echoes.answers⟩

omit [LinearOrder K] in
theorem Echoes.putRoutes (echoes : Echoes o asked s) {es : Edges K} {r : Routes K}
    (registered : EdgeStore.current o.lexicon o.store d = .ok es)
    (right : r.Right (drawn o.lexicon d es)) :
    Echoes o asked (s.putChart d { s.chart d with routes := some r }) where
  registries := echoes.registries.of_eq rfl rfl rfl
  routes := forall_putChart (P := fun d c => ∀ r, c.routes = some r →
      ∃ es, EdgeStore.current o.lexicon o.store d = .ok es ∧ r.Right (drawn o.lexicon d es))
    (fun _ same => Option.some.inj same ▸ ⟨es, registered, right⟩) echoes.routes
  factors := echoes.factors
  answers := forall_putChart (P := fun d c => ∀ u v found, asked u → asked v →
      c.answers.get? (u.write .ascii, v.write .ascii) = some found →
      Matches o.ConversionsAgree (.ok found) ((compute mergeFactor d u v).apply o).1)
    (echoes.answers d) echoes.answers

/-! ### Routes -/

variable (nonzero : o.NonZero)
include nonzero

variable [IsStrictOrderedRing K] [Scalar.Exact K]

/-- The routes of a dimension are right, and there are none where the edges cannot be built. -/
theorem settles_routes (d : Dimension) :
    (routes d).Settles (Echoes o asked)
      (fun r es => EdgeStore.current o.lexicon o.store d = .ok es ∧ r.Right (drawn o.lexicon d es))
      (EdgeStore.current o.lexicon o.store d) := by
  intro s echoes
  rw [routes_apply]
  cases known : (s.chart d).routes with
  | some r =>
    obtain ⟨es, registered, right⟩ := echoes.routes d r known
    rw [registered]
    exact ⟨echoes, .given ⟨rfl, right⟩⟩
  | none =>
    have built := echoes.registries.edgesOf d
    have current : EdgeStore.current o.lexicon o.store d =
        ((EdgeStore.edgesOf s.lexicon d).apply s.store).1 := by
      rw [← echoes.registries.edges d, ← echoes.registries.lexicon, EdgeStore.current]
    rcases run : (EdgeStore.edgesOf s.lexicon d).apply s.store with ⟨e | es, store⟩
    · rw [run] at built current
      rw [current]
      exact ⟨echoes.withStore built, .failed (.refl e)⟩
    · rw [run] at built current
      have right : (Routes.ofNetwork (drawn o.lexicon d es)).Right (drawn o.lexicon d es) :=
        Routes.right_ofNetwork (nonzero.drawn current)
      have same : drawn s.lexicon d es = drawn o.lexicon d es := by rw [echoes.registries.lexicon]
      dsimp only
      rw [current, same]
      exact ⟨(echoes.withStore built).putRoutes current right, .given ⟨rfl, right⟩⟩

variable {lax : Prop}

theorem parallel_routes (d : Dimension) :
    Action.Parallel (Echoes o asked) lax
      (fun r r' => ∃ es, EdgeStore.current o.lexicon o.store d = .ok es ∧
        r.Right (drawn o.lexicon d es) ∧ r'.Right (drawn o.lexicon d es)) (routes d) (routes d) := by
  have settles : (routes d).Settles (Echoes o asked) _ _ := settles_routes nonzero d
  refine settles.parallel settles ?_
  rintro r r' es ⟨registered, right⟩ ⟨_, right'⟩
  exact ⟨es, registered, right, right'⟩

/-- Networks of a dimension have the same nodes. -/
theorem parallel_network (d : Dimension) :
    Action.Parallel (Echoes o asked) lax (fun net net' => net.nodes = net'.nodes)
      (network d) (network d) := by
  refine .bind (parallel_routes nonzero d) ?_
  rintro r r' ⟨es, _, right, right'⟩
  exact .pure (right.grown.network.nodes.trans right'.grown.network.nodes.symm)

/-- Routes between the same nodes agree. -/
theorem parallel_route (d : Dimension) (src dest : String) :
    Action.Parallel (Echoes o asked) lax
      (Option.Rel fun c c' => c.factor.Agrees o.Balanced c'.factor)
      (route d src dest) (route d src dest) := by
  refine .bind (parallel_routes nonzero d) ?_
  rintro r r' ⟨es, registered, right, right'⟩ s t echoes echoes'
  have keyed := nonzero.drawn registered
  have ends := Network.holdsEnds_ofEdges ((o.lexicon.ofDimension d).map (·.asciiSymbol)) es
  obtain ⟨_, r₁, run, right₁, _⟩ := right.route keyed ends d.code src dest
  obtain ⟨_, r₂, run', right₂, _⟩ := right'.route keyed ends d.code src dest
  have agree := right.agree (P := o.Balanced) right' keyed ends
    (fun balanced => balanced d es registered) d.code src dest
  rw [run, run'] at agree
  rw [Action.onPart, Action.onPart, Action.apply_ofFn, Action.apply_ofFn, run, run']
  exact ⟨echoes.putRoutes registered right₁, .inr ⟨echoes'.putRoutes registered right₂, agree⟩⟩

end Session

end Metrology
