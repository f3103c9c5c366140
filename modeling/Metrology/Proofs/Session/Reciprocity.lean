import Metrology.Proofs.Session.Recent

/-!
# Conversions there and back

A conversion is put together from what its units merge into, from a route between these or what they
reduce to, and from prefixes. Each part is turned around by asking for the conversion back: there is
a route back if there is one there, and if the registered edges do not contradict one another the
factors are reciprocal.
-/
namespace Metrology.Session

open Metrology.Action (Parallel Settles)

variable {K : Type} [Field K] [LinearOrder K] [Scalar K]
variable {o s : Session K} {asked : Compound K → Prop} {d : Dimension}

/-! ### What a conversion is put together from -/

/-- What a unit reduces to, as a session that remembers nothing tells it. -/
def ReducesTo (o : Session K) (c : Compound K) (found : Option (Factor K)) : Prop :=
  ∃ x, ((toBase c true).apply o).1 = .ok x ∧ o.FactorsAgree found x

/-- What a unit merges into, as a session that remembers nothing tells it. -/
def MergesTo (o : Session K) (c : Compound K) (merged : Factor K × Compound K) : Prop :=
  ∃ x, ((mergeFactor c).apply o).1 = .ok x ∧ o.MergedAlike merged x

/-- The ratio of two units without prefixes: along a route or, where no conversions join them, of
what they reduce to. -/
inductive Linked (o : Session K) (d : Dimension) (u v : Compound K) : Option K → Prop
  | routed {es : Edges K} {c : Conversion K}
      (registered : EdgeStore.current o.lexicon o.store d = .ok es)
      (path : (drawn o.lexicon d es).IsPath (u.write .ascii) (v.write .ascii) c) :
      Linked o d u v (some c.factor.value)
  | based {es : Edges K} {x y : Factor K}
      (registered : EdgeStore.current o.lexicon o.store d = .ok es)
      (apart : ¬ (drawn o.lexicon d es).Connected (u.write .ascii) (v.write .ascii))
      (src : o.ReducesTo u (some x)) (dest : o.ReducesTo v (some y)) :
      Linked o d u v (some (x.value / y.value))
  | missing {es : Edges K} {x y : Option (Factor K)}
      (registered : EdgeStore.current o.lexicon o.store d = .ok es)
      (apart : ¬ (drawn o.lexicon d es).Connected (u.write .ascii) (v.write .ascii))
      (src : o.ReducesTo u x) (dest : o.ReducesTo v y) (lacks : x = .none ∨ y = .none) :
      Linked o d u v none

/-- The ratio of two units with their prefixes, scaled by `x`. -/
def Connects (o : Session K) (d : Dimension) (x : K) (src dest : Compound K) (value : Option K) :
    Prop :=
  ∃ m n u v ratio, src.multiplier = .ok m ∧ dest.multiplier = .ok n ∧
    src.withoutPrefixes = .ok u ∧ dest.withoutPrefixes = .ok v ∧ o.Linked d u v ratio ∧
    value = ratio.map fun r => x * m / n * r

/-- The factor of a conversion between two units, if there is one, from what they merge into. -/
def Converts (o : Session K) (d : Dimension) (u v : Compound K) (value : Option K) : Prop :=
  ∃ f src g dest alike, o.MergesTo u (f, src) ∧ o.MergesTo v (g, dest) ∧
    src.same dest = .ok alike ∧
    if alike then value = some (f.value / g.value)
    else o.Connects d (f.value / g.value) src dest value

section Specification

variable [IsStrictOrderedRing K] [Scalar.Exact K] (nonzero : o.NonZero)
include nonzero

/-- Routes are found where conversions join their ends. -/
theorem keepsEchoes_route (a b : String) :
    (route d a b).Keeps (Echoes o asked) fun found => ∃ es,
      EdgeStore.current o.lexicon o.store d = .ok es ∧
        (found = none ↔ ¬ (drawn o.lexicon d es).Connected a b) ∧
        ∀ c, found = some c → (drawn o.lexicon d es).IsPath a b c := by
  have settles : (routes d).Settles (Echoes o asked) _ _ := settles_routes nonzero d
  refine .bind settles.keeps fun r ⟨es, registered, _, right⟩ => ?_
  intro s echoes
  have keyed := nonzero.drawn registered
  have ends := Network.holdsEnds_ofEdges ((o.lexicon.ofDimension d).map (·.asciiSymbol)) es
  obtain ⟨found, r', run, right', nothing, path⟩ := right.route keyed ends d.code a b
  rw [Action.onPart, Action.apply_ofFn, run]
  refine ⟨echoes.putRoutes registered right', fun x same => ?_⟩
  obtain rfl := Except.ok.inj same
  exact ⟨es, registered, nothing, path⟩

variable (forgotten : o.Forgotten)
include forgotten

theorem keepsEchoes_toBase {c : Compound K} (sound : c.Sound o.lexicon.Names) :
    (toBase c true).Keeps (Echoes o asked) (o.ReducesTo c) := by
  have parallel : Parallel (Echoes o asked) False o.FactorsAgree (toBase c true) (toBase c true) :=
    parallel_toBase nonzero forgotten sound true
  exact (parallel.settles forgotten.echoes).keeps

/-- Merged units are connected by their ratio. -/
theorem keepsEchoes_connect (f : Factor K) {src dest : Compound K}
    (soundSrc : src.Sound o.lexicon.Names) (soundDest : dest.Sound o.lexicon.Names) :
    (connect d f src dest).Keeps (Echoes o asked) fun found =>
      o.Connects d f.value src dest (found.map (·.value)) := by
  refine .bind (.lift fun m scaled => scaled) fun m scaled => ?_
  refine .bind (.lift fun n scaled => scaled) fun n scaled' => ?_
  refine .bind (.lift fun p given => given) fun p given => ?_
  refine .bind (.lift fun u bare => bare) fun u bare => ?_
  refine .bind (.lift fun v bare => bare) fun v bare' => ?_
  have prefixed : p.value = f.value * m / n := by
    rw [(Factor.value_of_div given).2, Factor.value_mul]
    rfl
  have connects {found : Option (Factor K)} {ratio : Option K} (linked : o.Linked d u v ratio)
      (value : found.map (·.value) = ratio.map (p.value * ·)) :
      o.Connects d f.value src dest (found.map (·.value)) :=
    ⟨m, n, u, v, ratio, scaled, scaled', bare, bare', linked, by rw [value, prefixed]⟩
  refine .bind (keepsEchoes_route nonzero _ _) fun path ⟨es, registered, nothing, isPath⟩ => ?_
  cases path with
  | some c => exact .pure (connects (.routed registered (isPath c rfl)) (by simp))
  | none =>
    have apart := nothing.mp rfl
    refine .bind (keepsEchoes_toBase nonzero forgotten (soundSrc.withoutPrefixes bare))
      fun x srcBase => ?_
    refine .bind (keepsEchoes_toBase nonzero forgotten (soundDest.withoutPrefixes bare'))
      fun y destBase => ?_
    have missing (lacks : x = none ∨ y = none) : o.Connects d f.value src dest none :=
      ⟨m, n, u, v, none, scaled, scaled', bare, bare',
        .missing registered apart srcBase destBase lacks, rfl⟩
    cases x with
    | none => exact .pure (missing (.inl rfl))
    | some x =>
      cases y with
      | none => exact .pure (missing (.inr rfl))
      | some y =>
        refine .bind (.lift fun q ratio => ratio) fun q ratio => .pure ?_
        refine connects (.based registered apart srcBase destBase) ?_
        simp [(Factor.value_of_div ratio).2]

variable (apart : ToldApart o.lexicon asked)
include apart

theorem keepsEchoes_mergeFactor {u : Compound K} (is : asked u) (parts : ∀ c, u.HasPart c → asked c) :
    (mergeFactor u).Keeps (Echoes o asked) fun merged =>
      o.MergesTo u merged ∧ merged.2.Sound o.lexicon.Names := by
  have parallel : Parallel (Echoes o asked) False o.MergedAlike (mergeFactor u) (mergeFactor u) :=
    parallel_mergeFactor nonzero forgotten apart fun t mem =>
      ⟨((apart.sound u is).terms t mem).1, fun v c made meant => parts c ⟨t, mem, v, made, meant⟩⟩
  refine (parallel.settles forgotten.echoes).keeps.weaken fun merged ⟨x, given, alike⟩ => ?_
  exact ⟨⟨x, given, alike⟩, alike.2.2⟩

/-- What is computed is put together from these parts. -/
theorem keepsEchoes_compute {u v : Compound K} (isU : asked u) (partsU : ∀ c, u.HasPart c → asked c)
    (isV : asked v) (partsV : ∀ c, v.HasPart c → asked c) :
    (compute mergeFactor d u v).Keeps (Echoes o asked) fun found =>
      o.Converts d u v (found.map (·.factor.value)) := by
  refine .bind (keepsEchoes_mergeFactor nonzero forgotten apart isU partsU)
    fun ⟨f, src⟩ ⟨mergesU, soundSrc⟩ => ?_
  refine .bind (keepsEchoes_mergeFactor nonzero forgotten apart isV partsV)
    fun ⟨g, dest⟩ ⟨mergesV, soundDest⟩ => ?_
  refine .bind (.lift fun q given => given) fun q given => ?_
  have ratio : q.value = f.value / g.value := (Factor.value_of_div given).2
  refine .bind (.lift fun alike same => same) fun alike same => ?_
  dsimp only
  cases alike with
  | true =>
    exact .pure ⟨f, src, g, dest, true, mergesU, mergesV, same, congrArg some ratio⟩
  | false =>
    refine .bind (keepsEchoes_connect nonzero forgotten q soundSrc soundDest) fun found connects => ?_
    refine .pure ⟨f, src, g, dest, false, mergesU, mergesV, same, ?_⟩
    rw [Option.map_map]
    exact ratio ▸ connects

end Specification

/-! ### There and back -/

/-- Two answers are there or not together, and if the registered edges do not contradict one another
their values are reciprocal. -/
def Reciprocal (o : Session K) (x y : Option K) : Prop :=
  (x = none ↔ y = none) ∧ (o.Balanced → ∀ a ∈ x, ∀ b ∈ y, a * b = 1)

omit [LinearOrder K] in
theorem ReducesTo.agree {c : Compound K} {x y : Option (Factor K)} (first : o.ReducesTo c x)
    (second : o.ReducesTo c y) : o.FactorsAgree x y := by
  obtain ⟨z, given, agree⟩ := first
  obtain ⟨_, given', agree'⟩ := second
  obtain rfl := Except.ok.inj (given.symm.trans given')
  exact factorsAgree_trans agree (factorsAgree_symm agree')

omit [LinearOrder K] in
theorem MergesTo.agree {c : Compound K} {x y : Factor K × Compound K} (first : o.MergesTo c x)
    (second : o.MergesTo c y) : x.1.Agrees o.Balanced y.1 ∧ x.2 = y.2 := by
  obtain ⟨z, given, agrees, same, _⟩ := first
  obtain ⟨_, given', agrees', same', _⟩ := second
  obtain rfl := Except.ok.inj (given.symm.trans given')
  exact ⟨agrees.trans agrees'.symm, same.trans same'.symm⟩

omit [LinearOrder K] in
/-- Routes there and back are reciprocal, and so are the ratios of what the units reduce to. -/
theorem Linked.reciprocal (drawn : ∀ es, EdgeStore.current o.lexicon o.store d = .ok es →
      (Session.drawn o.lexicon d es).Drawn) {u v : Compound K} {x y : Option K}
    (there : o.Linked d u v x) (back : o.Linked d v u y) : o.Reciprocal x y := by
  have turned {es es' : Edges K} (registered : EdgeStore.current o.lexicon o.store d = .ok es)
      (registered' : EdgeStore.current o.lexicon o.store d = .ok es') {a b : String}
      {c : Conversion K} (path : (Session.drawn o.lexicon d es).IsPath a b c) :
      (Session.drawn o.lexicon d es').Connected b a := by
    obtain rfl := Except.ok.inj (registered.symm.trans registered')
    exact path.connected.symm
  cases there with
  | @routed es c registered path =>
    cases back with
    | @routed es' c' registered' path' =>
      obtain rfl := Except.ok.inj (registered.symm.trans registered')
      refine ⟨by simp, fun balanced => ?_⟩
      obtain ⟨size, nonzero, sizes⟩ := balanced d es registered
      obtain ⟨_, _, w, factor⟩ := path
      obtain ⟨_, _, w', factor'⟩ := path'
      have walked : size (u.write .ascii) = c.factor.value * size (v.write .ascii) :=
        factor ▸ w.value_eq sizes (drawn es registered).nonzero
      have walked' : size (v.write .ascii) = c'.factor.value * size (u.write .ascii) :=
        factor' ▸ w'.value_eq sizes (drawn es registered).nonzero
      rw [walked', ← mul_assoc] at walked
      have one : c.factor.value * c'.factor.value = 1 :=
        mul_right_cancel₀ (nonzero _) (walked.symm.trans (one_mul _).symm)
      simpa using one
    | based registered' apart => exact absurd (turned registered registered' path) apart
    | missing registered' apart => exact absurd (turned registered registered' path) apart
  | @based es x y registered apart src dest =>
    cases back with
    | routed registered' path => exact absurd (turned registered' registered path) apart
    | @based es' x' y' _ _ src' dest' =>
      refine ⟨by simp, fun balanced => ?_⟩
      cases src.agree dest' with
      | some agrees =>
        cases dest.agree src' with
        | some agrees' =>
          have nonzero := agrees.right
          have nonzero' := agrees'.right
          simp only [Option.mem_def, Option.some.injEq, forall_eq', agrees.same balanced,
            agrees'.same balanced]
          field_simp
    | missing _ _ src' dest' lacks =>
      rcases lacks with rfl | rfl
      · cases dest.agree src'
      · cases src.agree dest'
  | missing registered apart src dest lacks =>
    cases back with
    | routed registered' path => exact absurd (turned registered' registered path) apart
    | based _ _ src' dest' =>
      rcases lacks with rfl | rfl
      · cases src.agree dest'
      · cases dest.agree src'
    | missing => exact ⟨by simp, fun _ => by simp⟩

omit [Field K] [LinearOrder K] [Scalar K] in
/-- Units are compared alike either way. -/
theorem same_comm {u v : Compound K} {alike alike' : Bool} (there : u.same v = .ok alike)
    (back : v.same u = .ok alike') : alike = alike' := by
  unfold Compound.same at there back
  split at there
  next written =>
    rw [if_pos written.symm] at back
    obtain ⟨d, given, rest⟩ := bind_eq_ok.mp there
    obtain ⟨e, other, same⟩ := bind_eq_ok.mp rest
    rw [given, other] at back
    obtain rfl := Except.ok.inj same
    obtain rfl := Except.ok.inj back
    exact Bool.beq_comm
  next differ =>
    rw [if_neg (Ne.symm differ)] at back
    exact (Except.ok.inj there).symm.trans (Except.ok.inj back)

theorem Connects.reciprocal [IsStrictOrderedRing K] [Scalar.Exact K] (nonzero : o.NonZero) {x y : K}
    {src dest : Compound K}
    (soundSrc : src.Sound o.lexicon.Names) (soundDest : dest.Sound o.lexicon.Names)
    (scale : o.Balanced → x * y = 1) {value value' : Option K}
    (there : o.Connects d x src dest value) (back : o.Connects d y dest src value') :
    o.Reciprocal value value' := by
  obtain ⟨m, n, u, v, ratio, scaled, scaled', bare, bare', linked, rfl⟩ := there
  obtain ⟨n₁, m₁, v₁, u₁, ratio', scaled₁', scaled₁, bare₁', bare₁, linked', rfl⟩ := back
  obtain rfl := Except.ok.inj (scaled.symm.trans scaled₁)
  obtain rfl := Except.ok.inj (scaled'.symm.trans scaled₁')
  obtain rfl := Except.ok.inj (bare.symm.trans bare₁)
  obtain rfl := Except.ok.inj (bare'.symm.trans bare₁')
  have m_ne : m ≠ 0 := nonzero.lexicon.multiplier_ne_zero soundSrc scaled
  have n_ne : n ≠ 0 := nonzero.lexicon.multiplier_ne_zero soundDest scaled'
  obtain ⟨both, product⟩ := linked.reciprocal (fun _ registered => nonzero.drawn registered) linked'
  refine ⟨by simpa using both, fun balanced => ?_⟩
  simp only [Option.mem_def, Option.map_eq_some_iff, forall_exists_index, and_imp]
  rintro _ r isR rfl _ r' isR' rfl
  have one := product balanced r isR r' isR'
  calc x * m / n * r * (y * n / m * r')
      = x * y * (r * r') := by field_simp
    _ = 1 := by rw [scale balanced, one, one_mul]

/-- A conversion and the one back are reciprocal. -/
theorem Converts.reciprocal [IsStrictOrderedRing K] [Scalar.Exact K] (nonzero : o.NonZero)
    {u v : Compound K} {value value' : Option K} (there : o.Converts d u v value)
    (back : o.Converts d v u value') :
    o.Reciprocal value value' := by
  obtain ⟨f, src, g, dest, alike, mergesSrc, mergesDest, same, outcome⟩ := there
  obtain ⟨g', dest', f', src', alike', mergesDest', mergesSrc', same', outcome'⟩ := back
  obtain ⟨srcAgrees, rfl⟩ := mergesSrc.agree mergesSrc'
  obtain ⟨destAgrees, rfl⟩ := mergesDest.agree mergesDest'
  obtain rfl := same_comm same same'
  have f_ne := srcAgrees.right
  have g_ne := destAgrees.right
  have scale : o.Balanced → f.value / g.value * (g'.value / f'.value) = 1 := by
    intro balanced
    have first : f.value = f'.value := srcAgrees.same balanced
    have second : g.value = g'.value := destAgrees.same balanced
    rw [first, second]
    field_simp
  cases alike with
  | true =>
    obtain rfl : value = _ := outcome
    obtain rfl : value' = _ := outcome'
    exact ⟨by simp, fun balanced => by simpa using scale balanced⟩
  | false =>
    obtain ⟨_, _, _, _, soundSrc⟩ := mergesSrc
    obtain ⟨_, _, _, _, soundDest⟩ := mergesDest
    exact Connects.reciprocal nonzero soundSrc soundDest scale outcome outcome'

/-! ### In a run -/

section Runs

variable [IsStrictOrderedRing K] [Scalar.Exact K]

variable (nonzero : o.NonZero) (forgotten : o.Forgotten) (apart : ToldApart o.lexicon asked)
include nonzero forgotten apart

/-- What a session answers that remembers nothing. -/
theorem converts_of_conversion {src dest : UnitRef K} (asksSrc : Asks o asked src)
    (asksDest : Asks o asked dest) {found : Option (Conversion K)}
    (given : ((conversion src dest).apply o).1 = .ok found) :
    ∃ u v d, o.lexicon.deref src = .ok u ∧ o.lexicon.deref dest = .ok v ∧ u.dimension = .ok d ∧
      v.dimension = .ok d ∧ o.Converts d u v (found.map (·.factor.value)) := by
  rw [conversion, Action.apply_bind, parse_apply] at given
  cases meant : o.lexicon.deref src with
  | error e => simp [meant] at given
  | ok u =>
    rw [meant] at given
    dsimp only at given
    rw [Action.apply_bind, Action.apply_lift] at given
    cases dimension : u.dimension with
    | error e => simp [dimension] at given
    | ok d =>
      have passes : ((validate d (.compound u)).apply o).1 = .ok u :=
        validate_eq_ok.mpr ⟨rfl, dimension⟩
      rw [dimension] at given
      dsimp only at given
      rw [conversionIn, answer_apply, passes] at given
      cases passes' : ((validate d dest).apply o).1 with
      | error e => simp [passes'] at given
      | ok v =>
        obtain ⟨meant', dimension'⟩ := validate_eq_ok.mp passes'
        have unknown : (o.chart d).answers.get? (u.write .ascii, v.write .ascii) = none := by
          simp [forgotten.chart, Chart.blank]
        have computes := keepsEchoes_compute (d := d) nonzero forgotten apart (asksSrc u meant).1
          (asksSrc u meant).2 (asksDest v meant').1 (asksDest v meant').2
        have converts := (computes o forgotten.echoes).2
        simp only [passes', unknown] at given
        rcases run : (compute mergeFactor d u v).apply o with ⟨e | found', t⟩
        · simp [run] at given
        · rw [run] at given converts
          obtain rfl := Except.ok.inj given
          exact ⟨u, v, d, rfl, meant', dimension, dimension', converts found' rfl⟩

/-- Answers there and back from sessions that remember what this one would find out. -/
theorem reciprocal_of_echoes {src dest : UnitRef K} (asksSrc : Asks o asked src)
    (asksDest : Asks o asked dest) {t t' : Session K} (echoes : Echoes o asked t)
    (echoes' : Echoes o asked t') {x y : Option (Conversion K)}
    (there : ((conversion src dest).apply t).1 = .ok x)
    (back : ((conversion dest src).apply t').1 = .ok y) :
    o.Reciprocal (x.map (·.factor.value)) (y.map (·.factor.value)) := by
  have start : Echoes o asked o := forgotten.echoes
  have same := (parallel_conversion nonzero forgotten apart asksSrc asksDest).outcome echoes start
  have same' := (parallel_conversion nonzero forgotten apart asksDest asksSrc).outcome echoes' start
  rw [there] at same
  rw [back] at same'
  obtain ⟨x', here, agree⟩ := same.ok_of_left
  obtain ⟨y', here', agree'⟩ := same'.ok_of_left
  obtain ⟨u, v, d, isSrc, isDest, dimension, _, converts⟩ :=
    converts_of_conversion nonzero forgotten apart asksSrc asksDest here
  obtain ⟨v', u', d', isDest', isSrc', _, dimension', converts'⟩ :=
    converts_of_conversion nonzero forgotten apart asksDest asksSrc here'
  obtain rfl := Except.ok.inj (isSrc.symm.trans isSrc')
  obtain rfl := Except.ok.inj (isDest.symm.trans isDest')
  obtain rfl := Except.ok.inj (dimension.symm.trans dimension')
  obtain ⟨both, product⟩ := converts.reciprocal nonzero converts'
  cases agree with
  | none =>
    cases agree' with
    | none => exact ⟨both, product⟩
    | some => simp at both
  | some agrees =>
    cases agree' with
    | none => simp at both
    | some agrees' =>
      refine ⟨by simp, fun balanced => ?_⟩
      have one := product balanced
      rw [Option.map_some, Option.map_some, agrees.factor.same balanced,
        agrees'.factor.same balanced]
      exact one

end Runs

/-- **Conversions are reciprocal.** A session is made from any systems, its conversions are added
and removed and it is asked questions, in any order, and some may fail. Then two units that it knows
are converted one way and, after further questions or none, the other way, where the units that are
compared since the last change do not share symbols. If both are answered, there is a conversion
both ways or neither way, and if the registered conversions of no dimension contradict one another
the product of the factors is one. -/
theorem conversions_reciprocal [IsStrictOrderedRing K] [Scalar.Exact K]
    {systems : List MeasurementSystem} {s : Session K} (made : ofSystems systems = .ok s)
    {events : List (Event K)} {src dest : UnitRef K} {asked asked' : List (Query K)}
    (known : ∀ q ∈ .conversion src dest :: (recent [] events s ++ (asked ++ asked')),
      ∀ ref ∈ q.refs, s.lexicon.Refers ref)
    (apart : TellsApart s.lexicon (.conversion src dest :: (recent [] events s ++ (asked ++ asked'))))
    {x y : Option (Conversion K)} (there : reply asked src dest (after events s) = .ok x)
    (back : reply asked' dest src (after events s) = .ok y) :
    (x = none ↔ y = none) ∧ ((after events s).Balanced → ∀ c ∈ x, ∀ c' ∈ y,
      c.factor.value * c'.factor.value = 1) := by
  have nonzero := nonZero_ofSystems made
  obtain ⟨o, nonzero', forgotten, same, reached⟩ : ∃ o : Session K, o.NonZero ∧ o.Forgotten ∧
      o.lexicon = s.lexicon ∧ o.Reached (recent [] events s) (after events s) :=
    exists_reached nonzero (blank_of_ofSystems made).2 .start nonzero rfl
  rw [← same] at known apart
  let compared (c : Compound K) : Prop :=
    ∃ q ∈ .conversion src dest :: (recent [] events s ++ (asked ++ asked')),
      q.Compares o.lexicon c
  have told : ToldApart o.lexicon compared :=
    toldApart_of_tellsApart nonzero'.lexicon.indexed known apart
  have echoes : Echoes o compared (after events s) :=
    reached.echoes nonzero' forgotten told (fun q mem => known q (by simp [mem]))
      fun q mem c compares => ⟨q, by simp [mem], compares⟩
  have further {questions : List (Query K)} (part : ∀ q ∈ questions, q ∈ asked ++ asked') :
      Echoes o compared (perform (questions.map .ask) (after events s)) :=
    echoes.perform nonzero' forgotten told
      (fun q mem => known q (List.mem_cons_of_mem _ (List.mem_append_right _ (part q mem))))
      fun q mem c compares =>
        ⟨q, List.mem_cons_of_mem _ (List.mem_append_right _ (part q mem)), compares⟩
  have ⟨asksSrc, asksDest⟩ : Asks o compared src ∧ Asks o compared dest :=
    asks_ends fun c compares => ⟨_, List.mem_cons_self, compares⟩
  obtain ⟨both, product⟩ := reciprocal_of_echoes nonzero' forgotten told asksSrc asksDest
    (further fun _ => List.mem_append_left _) (further fun _ => List.mem_append_right _) there back
  refine ⟨by simpa using both, fun balanced c isThere c' isBack => ?_⟩
  have fits : o.Balanced := fun d es registered =>
    balanced d es (by rwa [echoes.registries.lexicon, echoes.registries.edges d])
  exact product fits _ (Option.mem_map_of_mem _ isThere) _ (Option.mem_map_of_mem _ isBack)

/-- Twelve pixels, and back. -/
theorem pica_reciprocal :
    ofSystems [.typography] = .ok typographer ∧
      TellsApart typographer.lexicon (.conversion (.symbol "P*px/p") (.symbol "px") ::
        (recent [] typesetting typographer ++
          ([] ++ [.conversion (.symbol "P*px/p") (.symbol "px")]))) ∧
      (after typesetting typographer).Balanced ∧
      ∃ c c', reply [] (.symbol "P*px/p") (.symbol "px") (after typesetting typographer) =
          .ok (some c) ∧
        reply [.conversion (.symbol "P*px/p") (.symbol "px")] (.symbol "px") (.symbol "P*px/p")
          (after typesetting typographer) = .ok (some c') ∧
        c.factor.value * c'.factor.value = 1 := by
  have replies : reply [] (.symbol "P*px/p") (.symbol "px") (after typesetting typographer) =
        .ok (some ⟨"L", "P*px/p", "px", ⟨12, 0⟩⟩) ∧
      reply [.conversion (.symbol "P*px/p") (.symbol "px")] (.symbol "px") (.symbol "P*px/p")
        (after typesetting typographer) = .ok (some ⟨"L", "px", "P*px/p", ⟨1/12, 0⟩⟩) := by
    decide +kernel
  obtain ⟨there, back⟩ := replies
  have named : ∀ q ∈ .conversion (.symbol "P*px/p") (.symbol "px") ::
      (recent [] typesetting typographer ++ ([] ++ [.conversion (.symbol "P*px/p") (.symbol "px")])),
      ∀ ref ∈ q.refs, ∃ text ∈ ["P*px/p", "px", "P", "p2", "P*px", "p"], ref = .symbol text := by
    have asked : ∀ q ∈ recent [] typesetting typographer, ∀ ref ∈ q.refs,
        ∃ text ∈ ["P*px/p", "px", "P", "p2", "P*px", "p"], ref = .symbol text := by
      intro q mem
      rcases mem_recent mem with old | own
      · cases old
      · simp only [typesetting, List.mem_cons, reduceCtorEq, Event.ask.injEq, List.not_mem_nil,
          or_false, false_or] at own
        rcases own with rfl | rfl
        · simp [Query.refs]
        · simp [Query.refs]
    intro q mem
    rcases List.mem_cons.mp mem with rfl | mem
    · simp [Query.refs]
    · rcases List.mem_append.mp mem with early | last
      · exact asked q early
      · obtain rfl := List.mem_singleton.mp last
        simp [Query.refs]
  have tabled := tabled_ofSystems ofSystems_typographer
  have apart := tellsApart_of_texts tabled _ named ordered_typeset
  have known : ∀ q ∈ .conversion (.symbol "P*px/p") (.symbol "px") ::
      (recent [] typesetting typographer ++ ([] ++ [.conversion (.symbol "P*px/p") (.symbol "px")])),
      ∀ ref ∈ q.refs, typographer.lexicon.Refers ref := by
    intro q mem ref isRef
    obtain ⟨text, _, rfl⟩ := named q mem ref isRef
    trivial
  have balanced : (after typesetting typographer).Balanced := by
    have fits := fits_points
    rw [coherent_typeset.lexicon] at fits
    exact coherent_typeset.balanced tabled fits
  have product := (conversions_reciprocal ofSystems_typographer known apart there back).2 balanced
  exact ⟨ofSystems_typographer, apart, balanced, _, _, there, back, product _ rfl _ rfl⟩

/-- The pixel is twice the point, and the point is the pixel. -/
def disputed : Session ℚ :=
  after [.addConversion "px" "p" ⟨2, 0⟩, .addConversion "p" "px" ⟨1, 0⟩] typographer

/-- Lengths and areas of pixels are related. -/
def surfaces : Session ℚ :=
  after [.addConversion "px" "p" ⟨3/4, 0⟩, .addConversion "px2" "P2" ⟨1/256, 0⟩] typographer

/-- Conversions that contradict one another are given as they were registered, so their factors need
not be reciprocal. And an area that was not found is not found again under the same symbol, though
it is the other way. -/
theorem conversions_not_reciprocal :
    (reply [] (.symbol "px") (.symbol "p") disputed = .ok (some ⟨"L", "px", "p", ⟨2, 0⟩⟩) ∧
      reply [] (.symbol "p") (.symbol "px") disputed = .ok (some ⟨"L", "p", "px", ⟨1, 0⟩⟩)) ∧
    (reply [.conversion (.symbol "p-1*px3") (.symbol "P2")] (.symbol "px3/p") (.symbol "P2")
        surfaces = .ok none ∧
      reply [.conversion (.symbol "p-1*px3") (.symbol "P2")] (.symbol "P2") (.symbol "px3/p")
        surfaces = .ok (some ⟨"L2", "P2", "px3/p", ⟨1024/3, 0⟩⟩)) := by
  decide +kernel

end Metrology.Session
