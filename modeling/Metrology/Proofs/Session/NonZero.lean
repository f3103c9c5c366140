import Metrology.Proofs.Graph.Editing
import Metrology.Proofs.Session.Journal

/-!
# Nothing multiplies by zero

No prefix and no unit of the tables multiplies by zero, and no conversion is registered whose factor
is zero. So no edge has the factor zero, whatever is registered and taken out, as long as the units
and prefixes that are registered do not multiply by zero either.
-/
namespace Metrology

variable {K : Type} [Field K] [LinearOrder K] [Scalar K]

/-! ### Lexicons -/

namespace Lexicon

/-- A consistent lexicon in which neither prefixes nor units multiply by zero. -/
structure NonZero (lex : Lexicon K) : Prop where
  consistent : lex.Consistent
  prefixes : ∀ p ∈ lex.prefixes.all, p.multiplier ≠ 0
  units : ∀ s u, lex.find? s = some u → u.expansionMultiplier ≠ 0

variable {lex more : Lexicon K} {u : NamedUnit K}

omit [LinearOrder K] [Scalar K] in
theorem NonZero.indexed (nonzero : lex.NonZero) : lex.Indexed :=
  nonzero.consistent.indexed

omit [LinearOrder K] [Scalar K] in
/-- Units that are listed are found. -/
theorem NonZero.find?_of_mem (nonzero : lex.NonZero) (listed : u ∈ lex.units.values) :
    lex.find? u.asciiSymbol = some u := by
  obtain ⟨row, isRow, rfl⟩ := List.mem_map.mp listed
  have found := (Register.mem_rows_iff nonzero.consistent.nodup).mp isRow
  obtain ⟨isFound, ascii⟩ := (nonzero.consistent.listed _ _).mp found
  rw [ascii, isFound]

omit [LinearOrder K] in
theorem NonZero.add (nonzero : lex.NonZero) (multiplier : u.expansionMultiplier ≠ 0)
    (added : lex.add u = .ok more) : more.NonZero where
  consistent := nonzero.consistent.add added
  prefixes := by
    rw [prefixes_add added]
    exact nonzero.prefixes
  units s v found := by
    rw [find?_add added] at found
    split at found
    next => exact Option.some.inj found ▸ multiplier
    next => exact nonzero.units s v found

omit [LinearOrder K] [Scalar K] in
theorem NonZero.remove (nonzero : lex.NonZero) (symbol : String) : (lex.remove symbol).2.NonZero where
  consistent := nonzero.consistent.remove symbol
  prefixes := by
    rw [prefixes_remove]
    exact nonzero.prefixes
  units s v isFound := by
    cases found : lex.find? symbol with
    | none =>
      rw [Lexicon.remove, found] at isFound
      exact nonzero.units s v isFound
    | some u =>
      rw [find?_remove found] at isFound
      split at isFound
      next => cases isFound
      next => exact nonzero.units s v isFound

omit [LinearOrder K] [Scalar K] in
theorem NonZero.addPrefix (nonzero : lex.NonZero) {p : Prefix K} (multiplier : p.multiplier ≠ 0)
    {table : PrefixTable K} (added : lex.prefixes.add p = .ok table) :
    { lex with prefixes := table }.NonZero where
  consistent := consistent_of_eq nonzero.consistent rfl rfl
  prefixes q mem := by
    have mem : q ∈ ((lex.prefixes.add p).toOption.getD lex.prefixes).all := by
      rw [added]
      exact mem
    rcases PrefixTable.mem_all_add mem with old | rfl
    · exact nonzero.prefixes q old
    · exact multiplier
  units := nonzero.units

variable [Scalar.Exact K]

/-- A unit that can be declared does not multiply by zero. -/
theorem expansionMultiplier_ne_zero {d : UnitDeclaration K} (declared : NamedUnit.declare d = .ok u) :
    u.expansionMultiplier ≠ 0 := by
  obtain ⟨dimension, _, rest⟩ := bind_eq_ok.mp declared
  split at rest
  next => cases rest
  next positive =>
    obtain rfl := Except.ok.inj rest
    rw [Scalar.Exact.isNotPositive_iff] at positive
    exact fun zero => positive zero.le

theorem keepsNonZero_loadSystem (system : MeasurementSystem) :
    (loadSystem system).Keeps (NonZero (K := K)) fun _ => True :=
  keeps_loadSystem_of_add system
    (fun nonzero declared added =>
      nonzero.add (expansionMultiplier_ne_zero declared.2) added)
    fun _ nonzero => ⟨consistent_of_eq nonzero.consistent rfl rfl, nonzero.prefixes, nonzero.units⟩

variable [IsStrictOrderedRing K]

/-- The prefixes of a unit do not multiply by zero. -/
theorem NonZero.multiplier_ne_zero (nonzero : lex.NonZero) {c : Compound K} {m : K}
    (sound : c.Sound lex.Names) (given : c.multiplier = .ok m) : m ≠ 0 :=
  (Compound.brings_multiplier .exact nonzero.prefixes sound).given given

end Lexicon

/-! ### Stores -/

namespace EdgeStore

omit [LinearOrder K] [Scalar K] in
/-- No edge has the factor zero. -/
def AllNonZero (es : Edges K) : Prop := ∀ row ∈ es.rows, row.2.factor.value ≠ 0

/-- A store without the factor zero that keeps every edge under its ends. -/
structure NonZero (store : EdgeStore K) : Prop where
  orderly : store.Orderly
  edges : ∀ d es, store.edges.get? d = some es → AllNonZero es
  added : ∀ d, AllNonZero (store.addedIn d)

omit [LinearOrder K] [Scalar K] in
theorem nonZero_empty : NonZero (empty : EdgeStore K) :=
  ⟨orderly_empty, fun d es built => by simp [empty] at built,
    fun _ _ mem => absurd mem List.not_mem_nil⟩

variable {lex : Lexicon K} {store : EdgeStore K} {d : Dimension}

omit [LinearOrder K] [Scalar K] in
theorem NonZero.reload (nonzero : NonZero store) : NonZero store.reload :=
  ⟨nonzero.orderly.reload, nonzero.edges, nonzero.added⟩

omit [LinearOrder K] [Scalar K] in
/-- What has to hold of every edge. -/
theorem NonZero.everywhere (nonzero : NonZero store) :
    Everywhere (fun _ row => row.2.factor.value ≠ 0) store :=
  ⟨nonzero.edges, nonzero.added⟩

omit [LinearOrder K] [Scalar K] in
theorem Everywhere.nonZero (everywhere : Everywhere (fun _ row => row.2.factor.value ≠ 0) store)
    (orderly : store.Orderly) : NonZero store :=
  ⟨orderly, everywhere.edges, everywhere.added⟩

variable [IsStrictOrderedRing K] [Scalar.Exact K]

/-- Without prefixes a factor other than zero does not become zero. -/
theorem factor_unprefixed_ne_zero (units : lex.NonZero) {src dest : Compound K} {factor : Factor K}
    {c : Conversion K} (soundDest : dest.Sound lex.Names) (nonzero : factor.value ≠ 0)
    (made : unprefixed d src dest factor = .ok c) : c.factor.value ≠ 0 := by
  rcases unprefixed_cases made with ⟨_, same⟩ | ⟨_, m, n, destScaled, _, divisor, value⟩
  · exact same ▸ nonzero
  · rw [value, Scalar.Exact.div_eq, Scalar.Exact.mul_eq]
    refine div_ne_zero (mul_ne_zero nonzero (units.multiplier_ne_zero soundDest destScaled)) ?_
    exact fun zero => Bool.eq_false_iff.mp divisor ((Scalar.Exact.isZero_iff n).mpr zero)

/-- Neither the tabled conversions nor the expansions have the factor zero. -/
theorem factor_rows_ne_zero (units : lex.NonZero) : ∀ row ∈ rows lex d, row.2.value ≠ 0 := by
  have digits : ∀ q ∈ Catalogue.quantities, ∀ row ∈ q.conversions, row.factor.digits ≠ 0 := by
    decide +kernel
  intro row mem
  rcases List.mem_append.mp mem with tabled | expansion
  · obtain ⟨c, isRow, rfl⟩ := List.mem_map.mp tabled
    obtain ⟨q, isQuantity, own, _⟩ := Catalogue.mem_conversions isRow
    show Scalar.ofDecimal c.factor ≠ (0 : K)
    rw [Scalar.Exact.ofDecimal_eq]
    exact mul_ne_zero (Nat.cast_ne_zero.mpr (digits q isQuantity c own))
      (zpow_ne_zero _ (by norm_num))
  · obtain ⟨u, listed, expands⟩ := List.mem_filterMap.mp expansion
    obtain ⟨e, _, rfl⟩ := Option.map_eq_some_iff.mp expands
    exact units.units _ u (units.find?_of_mem (List.mem_filter.mp listed).1)

theorem rowsGive_nonZero (units : lex.NonZero) :
    RowsGive lex fun _ row => row.2.factor.value ≠ 0 :=
  fun _ row mem _ _ _ _ dest made => factor_unprefixed_ne_zero units
    (units.indexed.sound_of_parse dest) (factor_rows_ne_zero units row mem) made

theorem NonZero.edgesOf (units : lex.NonZero) (nonzero : NonZero store) (d : Dimension) :
    NonZero ((edgesOf lex d).apply store).2 :=
  ((everywhere_edgesOf (rowsGive_nonZero units) d).invariant nonzero.everywhere).nonZero
    ((orderly_edgesOf d).invariant nonzero.orderly)

/-- A factor that is not zero or less makes no edge with the factor zero. -/
theorem additionGives_nonZero (units : lex.NonZero) (src dest : String) (factor : Factor K) :
    AdditionGives lex (fun _ row => row.2.factor.value ≠ 0) src dest factor := by
  intro u v d c _ isDest _ _ sign made
  have positive : factor.value ≠ 0 := by
    intro zero
    rw [(Scalar.Exact.isNotPositive_iff _).mpr zero.le] at sign
    cases sign
  exact factor_unprefixed_ne_zero units (units.indexed.sound_of_parse isDest) positive made

theorem nonZero_add (units : lex.NonZero) (nonzero : NonZero store) (src dest : String)
    (factor : Factor K) : NonZero ((add lex src dest factor).apply store).2 :=
  ((everywhere_add (rowsGive_nonZero units) (additionGives_nonZero units src dest factor)).invariant
    nonzero.everywhere).nonZero ((orderly_add src dest factor).invariant nonzero.orderly)

theorem nonZero_remove (units : lex.NonZero) (nonzero : NonZero store) (src dest : String) :
    NonZero ((remove lex src dest).apply store).2 :=
  ((everywhere_remove (rowsGive_nonZero units) src dest).invariant nonzero.everywhere).nonZero
    ((orderly_remove src dest).invariant nonzero.orderly)

end EdgeStore

/-! ### Sessions -/

namespace Session

/-- Neither units nor prefixes nor edges multiply by zero. -/
structure NonZero (s : Session K) : Prop where
  lexicon : s.lexicon.NonZero
  store : s.store.NonZero

/-- What may be done with a session and its registries, through the session or past it. -/
inductive Operation (K : Type) where
  | step (done : Step K)
  | registerUnit (u : NamedUnit K)
  | unregisterUnit (symbol : String)
  | registerSystem (system : MeasurementSystem)
  | registerConversion (src dest : String) (factor : Factor K)
  | unregisterConversion (src dest : String)
  | addPrefix (p : Prefix K)
  | addType (t : QuantityType)
  | forget

/-- The session after an operation, whether it succeeded or not. -/
def Operation.after (s : Session K) : Operation K → Session K
  | step done => done.after s
  | registerUnit u => ((Session.registerUnit u).apply s).2
  | unregisterUnit symbol => ((Session.unregisterUnit symbol).apply s).2
  | registerSystem system => ((onLexicon (Lexicon.loadSystem system)).apply s).2
  | registerConversion src dest factor =>
    ((onStore fun lex => EdgeStore.add lex src dest factor).apply s).2
  | unregisterConversion src dest => ((onStore fun lex => EdgeStore.remove lex src dest).apply s).2
  | addPrefix p => ((Session.addPrefix p).apply s).2
  | addType t => { s with quantityTypes := (s.quantityTypes.add t).toOption.getD s.quantityTypes }
  | forget => s.forget

/-- Units and prefixes that are added do not multiply by zero. -/
def Operation.Scales : Operation K → Prop
  | step (.deed (.change (.addUnit u))) | registerUnit u => u.expansionMultiplier ≠ 0
  | addPrefix p => p.multiplier ≠ 0
  | _ => True

/-- The session after one operation after the other. -/
def operated (operations : List (Operation K)) (s : Session K) : Session K :=
  operations.foldl Operation.after s

variable {s : Session K}

omit [Field K] [LinearOrder K] in
theorem registerUnit_apply (u : NamedUnit K) (s : Session K) :
    (registerUnit u).apply s =
      match s.lexicon.add u with
      | .ok lex => (.ok ⟨⟩, { s with lexicon := lex })
      | .error e => (.error e, s) := by
  rw [registerUnit, onLexicon, Action.onPart, Action.apply_ofFn, Action.apply_bind, Action.apply_get]
  dsimp only
  rw [Action.apply_bind, Action.apply_lift]
  cases s.lexicon.add u <;> rfl

omit [Field K] [LinearOrder K] [Scalar K] in
theorem addPrefix_apply (p : Prefix K) (s : Session K) :
    (addPrefix p).apply s =
      match s.lexicon.prefixes.add p with
      | .ok table => (.ok ⟨⟩, { s with lexicon := { s.lexicon with prefixes := table } })
      | .error e => (.error e, s) := by
  rw [addPrefix, onLexicon, Action.onPart, Action.apply_ofFn, Action.apply_bind, Action.apply_get]
  dsimp only
  rw [Action.apply_bind, Action.apply_lift]
  cases s.lexicon.prefixes.add p <;> rfl

omit [Field K] [LinearOrder K] [Scalar K] in
theorem apply_onLexicon {α : Type} (a : Action (Lexicon K) α) (s : Session K) :
    (onLexicon a).apply s =
      ((a.apply s.lexicon).1, { s with lexicon := (a.apply s.lexicon).2 }) := by
  rw [onLexicon, Action.onPart, Action.apply_ofFn]

/-- The operation asks something. -/
def Operation.isQuestion : Operation K → Bool
  | step (.deed (.ask _)) => true
  | _ => false

omit [Field K] [LinearOrder K] in
theorem Forgotten.change (forgotten : s.Forgotten) (c : Change K) :
    (c.action.apply s).2.Forgotten := by
  have run := c.comesTo s
  generalize c.action.apply s = outcome at run ⊢
  cases run with
  | unitRefused | systemHalted | edgeRefused | removalRefused =>
    exact ⟨forgotten.charts, forgotten.baseFactors⟩
  | unitAdded | unitRemoved | systemLoaded | edgeAdded | edgeRemoved => exact ⟨rfl, rfl⟩

omit [Field K] [LinearOrder K] in
/-- What was forgotten stays so until something is asked, whether changes are made or refused. -/
theorem Forgotten.operated (forgotten : s.Forgotten) {operations : List (Operation K)}
    (silent : ∀ operation ∈ operations, operation.isQuestion = false) :
    (Session.operated operations s).Forgotten := by
  induction operations generalizing s with
  | nil => exact forgotten
  | cons operation rest ih =>
    refine ih ?_ fun later mem => silent later (List.mem_cons_of_mem _ mem)
    match operation with
    | .step .reload => exact ⟨forgotten.charts, forgotten.baseFactors⟩
    | .step (.deed (.ask q)) => exact nomatch silent _ List.mem_cons_self
    | .step (.deed (.change c)) => exact forgotten.change c
    | .registerUnit u =>
      rw [Operation.after, registerUnit_apply]
      cases s.lexicon.add u <;> exact ⟨forgotten.charts, forgotten.baseFactors⟩
    | .unregisterUnit _ | .registerSystem _ | .registerConversion _ _ _ | .unregisterConversion _ _
    | .addType _ => exact ⟨forgotten.charts, forgotten.baseFactors⟩
    | .addPrefix p =>
      rw [Operation.after, addPrefix_apply]
      cases s.lexicon.prefixes.add p <;> exact ⟨forgotten.charts, forgotten.baseFactors⟩
    | .forget => exact ⟨rfl, rfl⟩

variable [IsStrictOrderedRing K] [Scalar.Exact K]

theorem nonZero_ofSystems {systems : List MeasurementSystem} (made : ofSystems systems = .ok s) :
    s.NonZero := by
  obtain ⟨consistent, prefixes⟩ := consistent_ofSystems made
  refine ⟨⟨consistent, fun p mem => ?_, fun symbol u found => ?_⟩, ?_⟩
  · rw [prefixes] at mem
    exact Catalogue.multiplier_ne_zero mem
  · obtain ⟨_, row, declared⟩ := (tabled_ofSystems made).declared symbol u found
    exact Lexicon.expansionMultiplier_ne_zero declared.2
  · rw [(blank_of_ofSystems made).1]
    exact EdgeStore.nonZero_empty

/-- A change adds no factor of zero. -/
theorem NonZero.change (nonzero : s.NonZero) {c : Change K}
    (scales : (Operation.step (.deed (.change c))).Scales) : (c.action.apply s).2.NonZero := by
  obtain ⟨units, edges⟩ := nonzero
  have run := c.comesTo s
  generalize c.action.apply s = outcome at run ⊢
  cases run with
  | unitRefused => exact ⟨units, edges⟩
  | unitAdded added => exact ⟨units.add scales added, edges.reload⟩
  | unitRemoved symbol => exact ⟨units.remove symbol, edges.reload⟩
  | systemHalted loading => exact ⟨(Lexicon.keepsNonZero_loadSystem _).left loading units, edges⟩
  | systemLoaded loading =>
    exact ⟨(Lexicon.keepsNonZero_loadSystem _).left loading units, edges.reload⟩
  | edgeRefused src dest factor edit | edgeAdded src dest factor edit =>
    have kept := EdgeStore.nonZero_add units edges src dest factor
    rw [edit] at kept
    exact ⟨units, kept⟩
  | removalRefused src dest edit | edgeRemoved src dest edit =>
    have kept := EdgeStore.nonZero_remove units edges src dest
    rw [edit] at kept
    exact ⟨units, kept⟩

theorem NonZero.step (nonzero : s.NonZero) {step : Step K}
    (scales : (Operation.step step).Scales) : (step.after s).NonZero := by
  match step with
  | .reload => exact ⟨nonzero.lexicon, nonzero.store.reload⟩
  | .deed (.ask q) =>
    obtain ⟨units, edges⟩ := nonzero
    obtain ⟨lexicon, kept⟩ := registries_ask (fun d _ held => held.edgesOf units d) edges q
    exact ⟨lexicon ▸ units, kept⟩
  | .deed (.change c) => exact nonzero.change scales

theorem NonZero.operation (nonzero : s.NonZero) {operation : Operation K}
    (scales : operation.Scales) : (operation.after s).NonZero := by
  cases operation with
  | step done => exact nonzero.step scales
  | registerUnit u =>
    rw [Operation.after, registerUnit_apply]
    cases added : s.lexicon.add u with
    | error e => exact nonzero
    | ok lex => exact ⟨nonzero.lexicon.add scales added, nonzero.store⟩
  | unregisterUnit symbol => exact ⟨nonzero.lexicon.remove symbol, nonzero.store⟩
  | registerSystem system =>
    rw [Operation.after, apply_onLexicon]
    exact ⟨(Lexicon.keepsNonZero_loadSystem system).invariant nonzero.lexicon, nonzero.store⟩
  | registerConversion src dest factor =>
    rw [Operation.after, apply_onStore]
    exact ⟨nonzero.lexicon, EdgeStore.nonZero_add nonzero.lexicon nonzero.store src dest factor⟩
  | unregisterConversion src dest =>
    rw [Operation.after, apply_onStore]
    exact ⟨nonzero.lexicon, EdgeStore.nonZero_remove nonzero.lexicon nonzero.store src dest⟩
  | addType t => exact ⟨nonzero.lexicon, nonzero.store⟩
  | addPrefix p =>
    rw [Operation.after, addPrefix_apply]
    cases added : s.lexicon.prefixes.add p with
    | error e => exact nonzero
    | ok table => exact ⟨nonzero.lexicon.addPrefix scales added, nonzero.store⟩
  | forget => exact ⟨nonzero.lexicon, nonzero.store⟩

/-- Whatever is done with a session, nothing in it multiplies by zero. -/
theorem NonZero.operated (nonzero : s.NonZero) {operations : List (Operation K)}
    (scales : ∀ operation ∈ operations, operation.Scales) :
    (Session.operated operations s).NonZero := by
  induction operations generalizing s with
  | nil => exact nonzero
  | cons operation rest ih =>
    exact ih (nonzero.operation (scales operation List.mem_cons_self))
      fun later mem => scales later (List.mem_cons_of_mem _ mem)

/-- So the network of a dimension is drawn without a zero. -/
theorem NonZero.drawn (nonzero : s.NonZero) {d : Dimension} {es : Edges K}
    (registered : EdgeStore.current s.lexicon s.store d = .ok es) :
    (Session.drawn s.lexicon d es).Drawn := by
  have keyed := nonzero.store.orderly.current registered
  have factors :=
    nonzero.store.everywhere.current (EdgeStore.rowsGive_nonZero nonzero.lexicon) registered
  refine Network.drawn_of_rows fun row mem => ?_
  have ends := keyed.ends row mem
  exact ⟨congrArg Prod.fst ends.symm, congrArg Prod.snd ends.symm, factors row mem⟩

end Session

end Metrology
