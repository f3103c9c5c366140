import Metrology.Proofs.Session.Relating

/-!
# What is answered, whatever is remembered

A session remembers routes, factors and conversions, found for one question and used for the next. An
invariant tells that all of it is as the registries have it: something was found exactly where they
relate the units. Each function keeps the invariant, and what it gives tells the same of its own
question. What it fails with is a fault of the numbers or comes from merging a unit out of range, as
long as all that the registries name can be read.
-/
namespace Metrology

namespace Session

section Steps

variable {K : Type} {u : NamedUnit K}

/-- The steps that a reduction takes where expansions consist of units of a single axis. -/
def reductionSteps (bridging : Bool) (u : NamedUnit K) : Nat :=
  if u.dimension.baseAxis?.isSome then 1
  else if u.isExpandable then 2
  else if bridging then 3
  else 1

theorem reductionSteps_expanded (axis : u.dimension.baseAxis? = none)
    {e : String} (expands : u.expansion = some e) (bridging : Bool) :
    reductionSteps bridging u = 2 := by
  simp [reductionSteps, axis, NamedUnit.isExpandable, expands]

theorem reductionSteps_bridged (axis : u.dimension.baseAxis? = none)
    (plain : u.expansion = none) : reductionSteps true u = 3 := by
  simp [reductionSteps, axis, NamedUnit.isExpandable, plain]

theorem reductionSteps_single (single : u.dimension.baseAxis?.isSome = true)
    (bridging : Bool) : reductionSteps bridging u = 1 := by
  rw [reductionSteps, if_pos single]

/-- Nodes that bridging may choose reduce by fewer steps than bridging takes. -/
theorem reductionSteps_direct
    (kind : u.dimension.baseAxis?.isSome = true ∨ u.isExpandable = true) :
    reductionSteps false u < 3 := by
  unfold reductionSteps
  split <;> simp_all

end Steps

variable {K : Type} [Scalar K] {good : K → Prop} {fault : Error → Prop}

/-! ### The invariant -/

/-- Registries whose units are found under their symbols, whose edges go between the ends they are kept
under, and whose numbers are good. -/
structure Furnished (good : K → Prop) (o : Session K) : Prop where
  indexed : o.lexicon.Indexed
  prefixes : ∀ p ∈ o.lexicon.prefixes.all, good p.multiplier
  units : ∀ s u, o.lexicon.find? s = some u → good u.expansionMultiplier
  edges : ∀ d es, EdgeStore.current o.lexicon o.store d = .ok es →
    (drawn o.lexicon d es).Labelled good

/-- Registries that name what can be read: nodes and base units are parsed, edges are built and
expansions parsed but for faults, and expansions consist of units of a single axis. -/
structure Readable (fault : Error → Prop) (o : Session K) : Prop where
  edges : ∀ d e, EdgeStore.current o.lexicon o.store d = .error e → fault e
  nodes : ∀ d es node, EdgeStore.current o.lexicon o.store d = .ok es →
    node ∈ (drawn o.lexicon d es).nodes → ∃ c, o.lexicon.parse node = .ok c
  bases : ∀ a, o.lexicon.contains a.plainSymbol = true → ∃ si, o.lexicon.siTerm a = .ok si
  expansions : ∀ s u expansion, o.lexicon.find? s = some u → u.expansion = some expansion →
    Brings (fun c => ∀ t ∈ c.terms, t.isBase = true) fault (o.lexicon.parse expansion)
  dimensions : ∀ s u, o.lexicon.find? s = some u →
    u.dimension.InRange ∧ (u.isScalar = true → u.dimension = .dimensionless)

/-- Something was found exactly if `P` holds, and its number is good. -/
def Found (good : K → Prop) (P : Prop) (found : Option (Factor K)) : Prop :=
  (found.isSome ↔ P) ∧ ∀ f ∈ found, good f.value

/-- The units merge, and a conversion was found exactly if what they merge into is tied. -/
def Decides (o : Session K) (d : Dimension) (u v : Compound K) (found : Option (Conversion K)) : Prop :=
  ∃ m n, o.merged u = .ok m ∧ o.merged v = .ok n ∧ (found.isSome ↔ o.Tied d m n)

/-- A conversion was found exactly if the registries relate the units. What else is said of it is left
open. -/
def Granted (o : Session K) (states : Compound K → Compound K → Conversion K → Prop) (d : Dimension)
    (u v : Compound K) (found : Option (Conversion K)) : Prop :=
  o.Decides d u v found ∧ ∀ c ∈ found, states u v c

/-- What a session remembers is as the registries of another one have it, with conversions as far as
they are between units that were asked for. -/
structure Knows (o : Session K) (good : K → Prop) (asked : Compound K → Prop)
    (states : Compound K → Compound K → Conversion K → Prop) (s : Session K) : Prop where
  registries : SameRegistries o s
  routes : ∀ d r, (s.chart d).routes = some r →
    ∃ es, EdgeStore.current o.lexicon o.store d = .ok es ∧ r.Finds good (drawn o.lexicon d es)
  factors : ∀ u bridging found, o.lexicon.find? u.asciiSymbol = some u →
    s.baseFactors.get? (u.asciiSymbol, bridging) = some found →
    Found good (o.UnitGrounded bridging u) found
  answers : ∀ d u v found, asked u → asked v →
    (s.chart d).answers.get? (u.write .ascii, v.write .ascii) = some found →
    o.Granted states d u v found

variable {o s : Session K} {asked : Compound K → Prop}
  {states : Compound K → Compound K → Conversion K → Prop} {d : Dimension}

theorem Decides.isSome_iff {u v : Compound K} {found : Option (Conversion K)}
    (decides : o.Decides d u v found) : found.isSome ↔ o.Relates d u v := by
  obtain ⟨m, n, merges, merges', same⟩ := decides
  refine same.trans ⟨fun tied => ⟨m, n, merges, merges', tied⟩, fun ⟨m', n', isM, isN, tied⟩ => ?_⟩
  obtain rfl := Except.ok.inj (merges.symm.trans isM)
  obtain rfl := Except.ok.inj (merges'.symm.trans isN)
  exact tied

theorem Forgotten.knows (forgotten : o.Forgotten) : Knows o good asked states o where
  registries := .refl _
  routes d r known := by simp [forgotten.chart, Chart.blank] at known
  factors u bridging found _ known := by simp [forgotten.baseFactors] at known
  answers d u v found _ _ known := by simp [forgotten.chart, Chart.blank] at known

/-- The edges of a dimension may be built. -/
theorem Knows.withStore (knows : Knows o good asked states s) {store : EdgeStore K}
    (registries : SameRegistries o { s with store := store }) :
    Knows o good asked states { s with store := store } :=
  ⟨registries, knows.routes, knows.factors, knows.answers⟩

theorem Knows.putRoutes (knows : Knows o good asked states s) {es : Edges K} {r : Routes K}
    (registered : EdgeStore.current o.lexicon o.store d = .ok es)
    (finds : r.Finds good (drawn o.lexicon d es)) :
    Knows o good asked states (s.putChart d { s.chart d with routes := some r }) where
  registries := knows.registries.of_eq rfl rfl rfl
  routes := forall_putChart (P := fun d c => ∀ r, c.routes = some r →
      ∃ es, EdgeStore.current o.lexicon o.store d = .ok es ∧ r.Finds good (drawn o.lexicon d es))
    (fun _ same => Option.some.inj same ▸ ⟨es, registered, finds⟩) knows.routes
  factors := knows.factors
  answers := forall_putChart (P := fun d c => ∀ u v found, asked u → asked v →
      c.answers.get? (u.write .ascii, v.write .ascii) = some found → o.Granted states d u v found)
    (knows.answers d) knows.answers

/-! ### Routes -/

variable (within : Scalar.Within good fault) (furnished : o.Furnished good)
  (reads : (∀ e, fault e) ∨ o.Readable fault)
include within furnished reads

omit within in
theorem ends_routes (d : Dimension) : (routes d).Ends (Knows o good asked states)
    (fun r => ∃ es, EdgeStore.current o.lexicon o.store d = .ok es ∧
      r.Finds good (drawn o.lexicon d es)) fault := by
  intro s knows
  rw [routes_apply]
  cases known : (s.chart d).routes with
  | some r => exact ⟨knows, knows.routes d r known⟩
  | none =>
    have built := knows.registries.edgesOf d
    have current : EdgeStore.current o.lexicon o.store d =
        ((EdgeStore.edgesOf s.lexicon d).apply s.store).1 := by
      rw [← knows.registries.edges d, ← knows.registries.lexicon, EdgeStore.current]
    rcases run : (EdgeStore.edgesOf s.lexicon d).apply s.store with ⟨e | es, store⟩
    · rw [run] at built current
      refine ⟨knows.withStore built, ?_⟩
      exact reads.elim (· e) fun readable => readable.edges d e current
    · rw [run] at built current
      have finds := Routes.finds_ofNetwork (furnished.edges d es current)
      have same : drawn s.lexicon d es = drawn o.lexicon d es := by rw [knows.registries.lexicon]
      dsimp only
      rw [same]
      exact ⟨(knows.withStore built).putRoutes current finds, es, current, finds⟩

/-- A route is found where registered conversions join its ends. -/
theorem ends_route (a b : String) : (route d a b).Ends (Knows o good asked states)
    (fun found => (found.isSome ↔ o.Coupled d a b) ∧ ∃ es,
      EdgeStore.current o.lexicon o.store d = .ok es ∧
        (drawn o.lexicon d es).Tells good a b found) fault := by
  refine .bind (ends_routes furnished reads d) fun r ⟨es, registered, finds⟩ => ?_
  intro s knows
  have ends := Network.holdsEnds_ofEdges ((o.lexicon.ofDimension d).map (·.asciiSymbol)) es
  obtain ⟨finds', brings⟩ := Routes.Finds.ends_route within ends d.code a b r finds
  rw [Action.onPart, Action.apply_ofFn]
  refine ⟨knows.putRoutes registered finds', brings.weaken (fun found tells => ?_) fun _ own => own⟩
  refine ⟨tells.isSome_iff.trans ⟨fun joined => .inr ⟨es, registered, joined⟩, ?_⟩, es, registered,
    tells⟩
  rintro (rfl | ⟨es', registered', joined⟩)
  · exact .refl
  · obtain rfl := Except.ok.inj (registered.symm.trans registered')
    exact joined

/-! ### Reduction -/

omit furnished reads in
/-- Terms reduce if their units do. -/
theorem ends_reduceTerms {reduce : NamedUnit K → Action (Session K) (Option (Factor K))}
    {reduces : NamedUnit K → Prop} {ts : List (Term K)}
    (units : ∀ t ∈ ts, (reduce t.unit).Ends (Knows o good asked states)
      (Found good (reduces t.unit)) fault)
    (scaled : ∀ t ∈ ts, good t.scalingMultiplier) {f : Factor K} (start : good f.value) :
    (reduceTerms reduce f ts).Ends (Knows o good asked states)
      (Found good (∀ t ∈ ts, reduces t.unit)) fault := by
  induction ts generalizing f with
  | nil => exact .pure ⟨by simp, fun g same => Option.some.inj same ▸ start⟩
  | cons t rest ih =>
    refine .bind (units t List.mem_cons_self) fun found ⟨own, size⟩ => ?_
    cases found with
    | none =>
      refine .pure ⟨⟨nofun, fun all => ?_⟩, nofun⟩
      exact absurd (own.mpr (all t List.mem_cons_self)) nofun
    | some g =>
      have product := Factor.good_mul within (f := .exact t.scalingMultiplier)
        (scaled t List.mem_cons_self) (size g rfl)
      refine .bind (.lift (Factor.brings_pow within product t.exponent)) fun p power => ?_
      refine (ih (fun u mem => units u (List.mem_cons_of_mem _ mem))
        (fun u mem => scaled u (List.mem_cons_of_mem _ mem))
        (Factor.good_mul within start power)).weaken (fun found others => ?_) fun _ own => own
      refine ⟨others.1.trans ?_, others.2⟩
      rw [List.forall_mem_cons]
      exact ⟨fun later => ⟨own.mp rfl, later⟩, fun all => all.2⟩

omit reads in
/-- A compound unit of the lexicon reduces if its units do. -/
theorem ends_reduceCompound {reduce : NamedUnit K → Action (Session K) (Option (Factor K))}
    {reduces : NamedUnit K → Prop} {c : Compound K} (sound : c.Sound o.lexicon.Names)
    (units : ∀ t ∈ c.terms, o.lexicon.find? t.unit.asciiSymbol = some t.unit →
      (reduce t.unit).Ends (Knows o good asked states) (Found good (reduces t.unit)) fault) :
    (reduceTerms reduce .one c.terms).Ends (Knows o good asked states)
      (Found good (∀ t ∈ c.terms, reduces t.unit)) fault := by
  refine ends_reduceTerms within (fun t mem => ?_) (fun t mem => ?_) (Factor.good_one within)
  · exact units t mem (sound.terms t mem).1.base.1
  · exact o.lexicon.good_scalingMultiplier within furnished.prefixes (sound.terms t mem).1.base

/-- A unit of a single axis reduces if it is joined to the base unit. -/
theorem ends_reduceBase {u : NamedUnit K} {a : Axis} (axis : u.dimension.baseAxis? = some a)
    (bridging : Bool) : (reduceBase u a).Ends (Knows o good asked states)
      (Found good (o.UnitGrounded bridging u)) fault := by
  refine .bind .get fun s knows => ?_
  rw [knows.registries.lexicon]
  dsimp only
  split
  next listed =>
    have given := Brings.of_ok (reads.imp_right fun readable => readable.bases a listed)
    refine .bind (.lift given) fun si read => ?_
    have sound := (furnished.indexed.siTerm_eq_ok read).1
    refine .bind (ends_route within furnished reads _ _) fun path ⟨joined, es, _, tells⟩ => ?_
    have grounded : path.isSome ↔ o.UnitGrounded bridging u := by
      rw [unitGrounded_base_iff axis, joined]
      refine ⟨fun joined => ⟨listed, si, read, joined⟩, fun ⟨_, si', read', joined⟩ => ?_⟩
      obtain rfl := Except.ok.inj (read.symm.trans read')
      exact joined
    cases path with
    | none => exact .pure ⟨grounded, nofun⟩
    | some c =>
      refine .bind (.lift (Term.brings_multiplier within furnished.prefixes sound.base))
        fun m multiplier => ?_
      refine .bind (.lift (Factor.brings_div within (tells.between c rfl).factor
        (g := .exact m) multiplier)) fun q quotient => .pure ⟨grounded, fun f same => ?_⟩
      exact Option.some.inj same ▸ quotient
  next unlisted =>
    refine .pure ⟨⟨nofun, fun grounded => ?_⟩, nofun⟩
    exact absurd ((unitGrounded_base_iff axis).mp grounded).1 unlisted

/-- Bridging finds a node if there is one. -/
theorem ends_bridge {reduce : NamedUnit K → Action (Session K) (Option (Factor K))} {u : NamedUnit K}
    (units : ∀ v, o.lexicon.find? v.asciiSymbol = some v →
      v.dimension.baseAxis?.isSome = true ∨ v.isExpandable = true →
      (reduce v).Ends (Knows o good asked states) (Found good (o.UnitGrounded false v)) fault)
    {es : Edges K} (registered : EdgeStore.current o.lexicon o.store u.dimension = .ok es)
    {nodes : List String} (listed : ∀ node ∈ nodes, node ∈ (drawn o.lexicon u.dimension es).nodes) :
    (bridge reduce u nodes).Ends (Knows o good asked states)
      (Found good (∃ x ∈ nodes, o.Bridges u x)) fault := by
  induction nodes with
  | nil => exact .pure (by simp [Found])
  | cons node rest ih =>
    have later (failed : ¬ o.Bridges u node) : (bridge reduce u rest).Ends
        (Knows o good asked states) (Found good (∃ x ∈ node :: rest, o.Bridges u x)) fault := by
      refine (ih fun x mem => listed x (List.mem_cons_of_mem _ mem)).weaken
        (fun found own => ⟨own.1.trans ?_, own.2⟩) fun _ own => own
      rw [List.exists_mem_cons_iff, or_iff_right failed]
    rw [bridge]
    split
    next same => exact later fun bridges => bridges.1 same
    next other =>
      refine .bind .get fun s knows => ?_
      rw [knows.registries.lexicon]
      have given := Brings.of_ok (reads.imp_right fun readable =>
        readable.nodes u.dimension es node registered (listed node List.mem_cons_self))
      refine .bind (.lift given) fun c read => ?_
      have sound := furnished.indexed.sound_of_parse read
      have same {e : Compound K} (read' : o.lexicon.parse node = .ok e) : e = c :=
        Except.ok.inj (read'.symm.trans read)
      split
      next simple =>
        refine .bind (ends_route within furnished reads _ _) fun path onPath => ?_
        obtain ⟨joined, _, _, tells⟩ := onPath
        cases path with
        | none =>
          refine later ?_
          rintro ⟨_, _, _, _, coupled, _⟩
          cases joined.mpr coupled
        | some way =>
          have kinds : ∀ t ∈ c.terms, t.unit.dimension.baseAxis?.isSome = true ∨
              t.unit.isExpandable = true :=
            fun t mem => Bool.or_eq_true_iff.mp (List.all_eq_true.mp simple t mem)
          refine .bind (ends_reduceCompound within furnished sound fun t mem known =>
            units t.unit known (kinds t mem)) fun base found => ?_
          obtain ⟨reduces, size⟩ := found
          cases base with
          | none =>
            refine later ?_
            rintro ⟨_, e, read', _, _, terms⟩
            obtain rfl := same read'
            cases reduces.mpr terms
          | some f =>
            refine .pure ⟨⟨fun _ => ?_, fun _ => rfl⟩, fun g given => Option.some.inj given ▸
              Factor.good_mul within (tells.between way rfl).factor (size f rfl)⟩
            exact ⟨node, List.mem_cons_self, other, c, read, simple, joined.mp rfl,
              reduces.mp rfl⟩
      next complex =>
        refine later ?_
        rintro ⟨_, e, read', simple, _⟩
        obtain rfl := same read'
        exact complex simple

/-- A unit that is not remembered reduces if it leads to SI base units. -/
theorem ends_factorAnew {depth : Nat} {bridging : Bool} {u : NamedUnit K}
    (found : o.lexicon.find? u.asciiSymbol = some u)
    (units : ∀ b v, o.lexicon.find? v.asciiSymbol = some v →
      (∀ e, fault e) ∨ reductionSteps b v < reductionSteps bridging u →
      (reduceUnit depth b v).Ends (Knows o good asked states)
        (Found good (o.UnitGrounded b v)) fault) :
    (factorAnew depth bridging u).Ends (Knows o good asked states)
      (Found good (o.UnitGrounded bridging u)) fault := by
  unfold factorAnew
  split
  next a axis => exact ends_reduceBase within furnished reads axis bridging
  next axis =>
    split
    next expansion expands =>
      have steps := reductionSteps_expanded axis expands bridging
      refine .bind .get fun s knows => ?_
      rw [knows.registries.lexicon]
      have given : Brings (fun c => o.lexicon.parse expansion = .ok c ∧
          ∀ t ∈ c.terms, (∀ e, fault e) ∨ reductionSteps bridging t.unit < 2) fault
          (o.lexicon.parse expansion) := by
        rcases reads with all | readable
        · exact .of_given (fun c read => ⟨read, fun _ _ => .inl all⟩) fun e _ => all e
        · refine (readable.expansions _ u expansion found expands).told.weaken
            (fun c ⟨read, bases⟩ => ⟨read, fun t mem => .inr ?_⟩) fun _ own => own
          rw [reductionSteps_single (bases t mem)]
          exact Nat.one_lt_two
      refine .bind (.lift given) fun c ⟨read, short⟩ => ?_
      have sound := furnished.indexed.sound_of_parse read
      refine .bind (ends_reduceCompound within furnished sound fun t mem known =>
        units bridging t.unit known (steps ▸ short t mem)) fun base ⟨reduces, size⟩ => ?_
      refine .pure ⟨?_, fun f same => ?_⟩
      · rw [Option.isSome_map, reduces, unitGrounded_expanded_iff axis expands read]
      · obtain ⟨g, isBase, rfl⟩ := Option.map_eq_some_iff.mp same
        exact Factor.good_mul within (f := .read u.expansionMultiplier)
          (furnished.units _ u found) (size g isBase)
    next plain =>
      split
      next bridges =>
        subst bridges
        have steps := reductionSteps_bridged axis plain
        have net : (network u.dimension).Ends (Knows o good asked states) (fun net => ∃ es,
            EdgeStore.current o.lexicon o.store u.dimension = .ok es ∧
              net.nodes = (drawn o.lexicon u.dimension es).nodes) fault :=
          .bind (ends_routes furnished reads _) fun r ⟨es, registered, finds⟩ =>
            .pure ⟨es, registered, finds.follows.nodes⟩
        refine .bind net fun net ⟨es, registered, nodes⟩ => ?_
        refine (ends_bridge within furnished reads (fun v listed kind =>
          units false v listed (.inr ?_)) registered fun node mem => nodes ▸ mem).weaken
          (fun found own => ⟨own.1.trans ?_, own.2⟩) fun _ own => own
        · exact steps ▸ reductionSteps_direct kind
        · rw [nodes, unitGrounded_bridged_iff axis plain registered]
      next direct =>
        obtain rfl := Bool.eq_false_iff.mpr direct
        exact .pure ⟨⟨nofun, fun grounded => (not_unitGrounded axis plain grounded).elim⟩, nofun⟩

/-- A unit reduces if it leads to SI base units. -/
theorem ends_reduceUnit {depth : Nat} {bridging : Bool} {u : NamedUnit K}
    (found : o.lexicon.find? u.asciiSymbol = some u)
    (enough : (∀ e, fault e) ∨ reductionSteps bridging u ≤ depth) :
    (reduceUnit depth bridging u).Ends (Knows o good asked states)
      (Found good (o.UnitGrounded bridging u)) fault := by
  induction depth generalizing bridging u with
  | zero =>
    refine .throw (enough.elim (· _) fun none => ?_)
    have some : 0 < reductionSteps bridging u := by
      unfold reductionSteps
      repeat' split
      all_goals exact Nat.succ_pos _
    omega
  | succ depth ih =>
    intro s knows
    rw [reduceUnit_apply]
    cases known : s.baseFactors.get? (u.asciiSymbol, bridging) with
    | some factor => exact ⟨knows, knows.factors u bridging factor found known⟩
    | none =>
      have anew : (factorAnew depth bridging u).Ends (Knows o good asked states) _ fault :=
        ends_factorAnew within furnished reads found fun b v listed short =>
          ih listed (short.elim .inl fun less => enough.imp_right fun _ => by omega)
      obtain ⟨kept, brings⟩ := anew s knows
      rcases run : (factorAnew depth bridging u).apply s with ⟨e | factor, t⟩
      · rw [run] at kept brings
        exact ⟨kept, brings⟩
      · rw [run] at kept brings
        refine ⟨⟨kept.registries.of_eq rfl rfl rfl, kept.routes, ?_, kept.answers⟩, brings⟩
        intro v b given listed remembered
        rw [Register.get?_put] at remembered
        split at remembered
        next key =>
          obtain ⟨symbols, rfl⟩ := Prod.mk.inj key
          rw [← symbols, found] at listed
          obtain rfl := Option.some.inj listed
          exact Option.some.inj remembered ▸ brings
        next => exact kept.factors v b given listed remembered

/-- A compound unit reduces if all its units lead to SI base units. -/
theorem ends_toBase {c : Compound K} (sound : c.Sound o.lexicon.Names) (bridging : Bool) :
    (toBase c bridging).Ends (Knows o good asked states)
      (Found good (∀ t ∈ c.terms, o.UnitGrounded bridging t.unit)) fault := by
  refine .bind .get fun s knows => ?_
  have steps (u : NamedUnit K) : reductionSteps bridging u ≤ s.reductionDepth := by
    have few : reductionSteps bridging u ≤ 3 := by
      unfold reductionSteps
      repeat' split
      all_goals decide
    exact few.trans (by rw [reductionDepth]; omega)
  exact ends_reduceCompound within furnished sound fun t _ known =>
    ends_reduceUnit within furnished reads known (.inr (steps t.unit))

end Session

end Metrology
