import Metrology.Proofs.Graph.Buildable
import Metrology.Proofs.Session.Comparing
import Metrology.Proofs.Unit.Total

/-!
# Conversions between units that reduce

Units that reduce to SI base units convert to one another if they have the same dimension: where no
route joins them, their reductions do. Nothing on the way fails, whatever is remembered: routes are
found in edges that can be built, factors other than zero are divided and raised to powers, and
units are stripped of their prefixes.
-/
namespace Metrology

variable {K : Type} [Field K] [LinearOrder K] [Scalar K] [Scalar.Exact K]

namespace Factor

variable {f g : Factor K}

theorem pow_isOk (nonzero : f.value ≠ 0) (n : Int) : ∃ p, f.pow n = .ok p ∧ p.value ≠ 0 := by
  have given : ∃ p, f.pow n = .ok p := by
    unfold pow
    split
    next => exact ⟨_, rfl⟩
    next =>
      rw [Scalar.Exact.pow_eq (.inl nonzero)]
      exact ⟨_, rfl⟩
  obtain ⟨p, given⟩ := given
  refine ⟨p, given, ?_⟩
  rw [value_of_pow given]
  exact zpow_ne_zero n nonzero

theorem div_isOk (nonzero : f.value ≠ 0) (nonzero' : g.value ≠ 0) :
    ∃ q, f.div g = .ok q ∧ q.value ≠ 0 :=
  ⟨_, div_eq nonzero', div_ne_zero nonzero nonzero'⟩

end Factor

namespace Session

open Metrology.Action (Parallel Settles Yields)

/-- The edges of every dimension can be built. -/
def Buildable (o : Session K) : Prop :=
  ∀ d, ∃ es, EdgeStore.current o.lexicon o.store d = .ok es

/-- The unit reduces to SI base units. -/
def UnitReduces (o : Session K) (u : NamedUnit K) : Prop :=
  ∃ f, o.reduction o.reductionDepth true u = .ok (some f)

/-- The compound unit reduces to SI base units. -/
def Reduces (o : Session K) (c : Compound K) : Prop :=
  ∃ f, ((toBase c true).apply o).1 = .ok (some f)

/-- A unit of the lexicon that reduces to SI base units, perhaps with a prefix. -/
def Reducing (o : Session K) (u : NamedUnit K) (scaling : Option (Prefix K)) : Prop :=
  o.lexicon.Names u scaling ∧ o.UnitReduces u

/-- A unit that reduces to SI base units and can be compared and stripped of its prefixes. -/
structure Convertible (o : Session K) (c : Compound K) : Prop where
  sound : c.Sound o.Reducing
  bare : ∃ u, c.withoutPrefixes = .ok u
  dimension : ∃ d, c.dimension = .ok d

variable {o : Session K} {asked : Compound K → Prop} {d : Dimension}

omit [Field K] [LinearOrder K] [Scalar.Exact K] in
theorem names_of_sound {c : Compound K} (sound : c.Sound o.Reducing) : c.Sound o.lexicon.Names where
  terms t mem :=
    have own := (sound.terms t mem).1
    ⟨⟨own.base.1, own.nonzero, own.range, own.accepted⟩, (sound.terms t mem).2⟩
  distinct := sound.distinct

omit [Field K] [LinearOrder K] [Scalar.Exact K] in
/-- Units of different dimensions do not get in each other's way. -/
theorem convertible_of_apart {c : Compound K} (sound : c.Sound o.Reducing)
    (apart : c.terms.Pairwise fun t u => t.unit.dimension ≠ u.unit.dimension)
    (own : ∀ t ∈ c.terms, (t.unit.dimension.pow t.exponent).InRange) (whole : c.total.InRange) :
    o.Convertible c := by
  have units : c.terms.Pairwise fun t u => t.unit ≠ u.unit :=
    apart.imp fun other same => other (congrArg NamedUnit.dimension same)
  refine ⟨sound, ⟨_, Compound.withoutPrefixes_of_units (names_of_sound sound) units⟩, c.total,
    Compound.dimension_eq_ok_iff.mpr ⟨fun t mem => ?_, rfl, whole⟩⟩
  exact ⟨_, Dimension.checked_eq_ok_iff.mpr ⟨rfl, own t mem⟩⟩

variable [IsStrictOrderedRing K] (nonzero : o.NonZero)
include nonzero

/-- A route is looked for without failing. -/
theorem yields_route (buildable : o.Buildable) (a b : String) :
    (route d a b).Yields (Echoes o asked) fun _ => True := by
  obtain ⟨es, registered⟩ := buildable d
  have settles : (routes d).Settles (Echoes o asked) _ _ := settles_routes nonzero d
  rw [registered] at settles
  refine .bind settles.yields fun r ⟨_, right⟩ => ?_
  intro s echoes
  have keyed := nonzero.drawn registered
  have ends := Network.holdsEnds_ofEdges ((o.lexicon.ofDimension d).map (·.asciiSymbol)) es
  obtain ⟨found, r', run, right', _⟩ := right.route keyed ends d.code a b
  rw [Action.onPart, Action.apply_ofFn, run]
  exact ⟨echoes.putRoutes registered right', found, rfl, trivial⟩

variable (forgotten : o.Forgotten)
include forgotten

theorem yields_reduceUnit {u : NamedUnit K} (found : o.lexicon.find? u.asciiSymbol = some u)
    (reduces : o.UnitReduces u) :
    (reduceUnit o.reductionDepth true u).Yields (Echoes o asked)
      fun found => ∃ f, found = some f ∧ f.value ≠ 0 := by
  obtain ⟨g, given⟩ := reduces
  have settles : (reduceUnit o.reductionDepth true u).Settles (Echoes o asked) _ _ :=
    settles_reduceUnit nonzero forgotten true found
  rw [given] at settles
  refine settles.yields.weaken fun x same => ?_
  cases same with
  | some agrees => exact ⟨_, rfl, agrees.left⟩

/-- A compound unit reduces only if all the units in it do. -/
theorem Reduces.terms {c : Compound K} (reduces : o.Reduces c) (sound : c.Sound o.lexicon.Names) :
    ∀ t ∈ c.terms, o.UnitReduces t.unit := by
  have run {ts : List (Term K)} (known : ∀ t ∈ ts, o.lexicon.find? t.unit.asciiSymbol = some t.unit)
      (f : Factor K) : (reduceTerms (reduceUnit o.reductionDepth true) f ts).Keeps
        (Echoes o fun _ => False) fun found => found ≠ none → ∀ t ∈ ts, o.UnitReduces t.unit := by
    induction ts generalizing f with
    | nil => exact .pure fun _ => by simp
    | cons t rest ih =>
      have settles : (reduceUnit o.reductionDepth true t.unit).Settles
          (Echoes o fun _ => False) _ _ :=
        settles_reduceUnit nonzero forgotten true (known t List.mem_cons_self)
      refine .bind settles.keeps fun x ⟨y, given, agree⟩ => ?_
      cases agree with
      | none => exact .pure fun found => absurd rfl found
      | some =>
        refine .bind (Q := fun _ => True) (.lift fun _ _ => trivial) fun p _ => ?_
        refine (ih (fun u mem => known u (List.mem_cons_of_mem _ mem)) _).weaken
          fun x own found => ?_
        exact List.forall_mem_cons.mpr ⟨⟨_, given⟩, own found⟩
  obtain ⟨f, given⟩ := reduces
  rw [toBase, Action.apply_bind, Action.apply_get] at given
  have keeps := run (fun t mem => (sound.terms t mem).1.base.1) .one
  exact keeps.answer forgotten.echoes given (Option.some_ne_none f)

/-- A unit reduces if its terms do. -/
theorem yields_toBase {c : Compound K} (sound : c.Sound o.Reducing) :
    (toBase c true).Yields (Echoes o asked) fun found => ∃ f, found = some f ∧ f.value ≠ 0 := by
  have terms {ts : List (Term K)} (each : ∀ t ∈ ts, o.Reducing t.unit t.scaling)
      {f : Factor K} (start : f.value ≠ 0) :
      (reduceTerms (reduceUnit o.reductionDepth true) f ts).Yields (Echoes o asked)
        fun found => ∃ g, found = some g ∧ g.value ≠ 0 := by
    induction ts generalizing f with
    | nil => exact .pure ⟨f, rfl, start⟩
    | cons t rest ih =>
      obtain ⟨names, reduces⟩ := each t List.mem_cons_self
      refine .bind (yields_reduceUnit nonzero forgotten names.1 reduces)
        fun _ ⟨g, same, factor⟩ => ?_
      subst same
      have scaled : ((Factor.exact t.scalingMultiplier).mul g).value ≠ 0 := by
        rw [Factor.value_mul]
        exact mul_ne_zero
          (Lexicon.scalingMultiplier_ne_zero nonzero.lexicon.prefixes names) factor
      refine .bind (.lift (Factor.pow_isOk scaled t.exponent)) fun p power => ?_
      refine ih (fun u mem => each u (List.mem_cons_of_mem _ mem)) ?_
      rw [Factor.value_mul]
      exact mul_ne_zero start power
  refine .bind .get fun s echoes => ?_
  have depth : s.reductionDepth = o.reductionDepth := by
    rw [reductionDepth, echoes.registries.lexicon]
    rfl
  rw [depth]
  exact terms (fun t mem => (sound.terms t mem).1.base) (by simp)

variable (buildable : o.Buildable)
include buildable

/-- Merged units are connected, along a route or by what they reduce to. -/
theorem yields_connect {f : Factor K} (factor : f.value ≠ 0) {src dest : Compound K}
    (isSrc : o.Convertible src) (isDest : o.Convertible dest) :
    (connect d f src dest).Yields (Echoes o asked) fun found => ∃ g, found = some g := by
  have scaled {c : Compound K} (is : o.Convertible c) :
      ∃ m, c.multiplier = .ok m ∧ (Factor.exact m).value ≠ 0 := by
    exact (Compound.brings_multiplier .exact nonzero.lexicon.prefixes (names_of_sound is.sound)).isOk
  have bare {c : Compound K} (is : o.Convertible c) :
      ∃ u, c.withoutPrefixes = .ok u ∧ u.Sound o.Reducing := by
    obtain ⟨u, made⟩ := is.bare
    refine ⟨u, made, is.sound.mapTerms (fun t v own same => ?_) made⟩
    exact Term.sound_of_make (P := o.Reducing) ⟨own.base.1.withoutPrefix, own.base.2⟩ same
  refine .bind (.lift (scaled isSrc)) fun m up => ?_
  refine .bind (.lift (scaled isDest)) fun n down => ?_
  have product : (f.mul (.exact m)).value ≠ 0 := by
    rw [Factor.value_mul]
    exact mul_ne_zero factor up
  refine .bind (.lift (Factor.div_isOk product down)) fun p _ => ?_
  refine .bind (.lift (bare isSrc)) fun u soundU => ?_
  refine .bind (.lift (bare isDest)) fun v soundV => ?_
  refine .bind (yields_route nonzero buildable _ _) fun path _ => ?_
  cases path with
  | some c => exact .pure ⟨_, rfl⟩
  | none =>
    refine .bind (yields_toBase nonzero forgotten soundU) fun _ ⟨x, same, base⟩ => ?_
    subst same
    refine .bind (yields_toBase nonzero forgotten soundV) fun _ ⟨y, same, base'⟩ => ?_
    subst same
    exact .bind (.lift (Factor.div_isOk base base')) fun q _ => .pure ⟨_, rfl⟩

/-- Units that merge into convertible ones convert to one another. -/
theorem yields_compute {merge : Merging K} {u v : Compound K}
    (mergesU : (merge u).Yields (Echoes o asked) fun r => r.1.value ≠ 0 ∧ o.Convertible r.2)
    (mergesV : (merge v).Yields (Echoes o asked) fun r => r.1.value ≠ 0 ∧ o.Convertible r.2) :
    (compute merge d u v).Yields (Echoes o asked) fun found => ∃ c, found = some c := by
  refine .bind mergesU fun ⟨f, src⟩ ⟨factor, isSrc⟩ => ?_
  refine .bind mergesV fun ⟨g, dest⟩ ⟨factor', isDest⟩ => ?_
  refine .bind (.lift (Factor.div_isOk factor factor')) fun q quotient => ?_
  have compares : ∃ alike, src.same dest = .ok alike := by
    obtain ⟨e, own⟩ := isSrc.dimension
    obtain ⟨e', own'⟩ := isDest.dimension
    unfold Compound.same
    split
    next => exact ⟨e == e', by rw [own, own']; rfl⟩
    next => exact ⟨false, rfl⟩
  obtain ⟨alike, same⟩ := compares
  refine .bind (.lift ⟨alike, same, rfl⟩) fun _ same => ?_
  subst same
  cases alike with
  | true => exact .pure ⟨_, rfl⟩
  | false =>
    refine .bind (yields_connect nonzero forgotten buildable quotient isSrc isDest)
      fun _ ⟨x, same⟩ => ?_
    subst same
    exact .pure ⟨_, rfl⟩

omit [LinearOrder K] [Scalar.Exact K] [IsStrictOrderedRing K] nonzero forgotten buildable in
/-- A conversion is given if it can be computed and none was missed before. -/
theorem conversionIn_isSome {src dest : UnitRef K} {u v : Compound K}
    (meant : o.lexicon.deref src = .ok u) (meant' : o.lexicon.deref dest = .ok v)
    (dimension : u.dimension = .ok d) (dimension' : v.dimension = .ok d)
    (computes : (compute mergeFactor d u v).Yields (Echoes o asked)
      fun found => ∃ c, found = some c)
    {s : Session K} (echoes : Echoes o asked s)
    (remembered : ∀ found, (s.chart d).answers.get? (u.write .ascii, v.write .ascii) = some found →
      ∃ c, found = some c) :
    ∃ c, ((conversionIn d src dest).apply s).1 = .ok (some c) := by
  have passes : ((validate d src).apply s).1 = .ok u :=
    validate_eq_ok.mpr ⟨echoes.registries.lexicon ▸ meant, dimension⟩
  have passes' : ((validate d dest).apply s).1 = .ok v :=
    validate_eq_ok.mpr ⟨echoes.registries.lexicon ▸ meant', dimension'⟩
  rw [conversionIn, answer_apply, passes, passes']
  dsimp only
  cases known : (s.chart d).answers.get? (u.write .ascii, v.write .ascii) with
  | some found =>
    obtain ⟨c, rfl⟩ := remembered found known
    exact ⟨c, rfl⟩
  | none =>
    obtain ⟨_, _, run, c, rfl⟩ := computes s echoes
    rcases whole : (compute mergeFactor d u v).apply s with ⟨e | found, t⟩
    · rw [whole] at run
      cases run
    · rw [whole] at run
      obtain rfl := Except.ok.inj run
      exact ⟨c, rfl⟩

/-! ### Single terms -/

/-- A term that may be joined to others of its dimension. -/
structure Joinable (o : Session K) (asked : Compound K → Prop) (t : Term K) : Prop where
  askedFor : AskedFor o asked t
  visible : t.isScalar = false
  reduces : o.UnitReduces t.unit
  inRange : t.unit.dimension.InRange

omit [Field K] [LinearOrder K] [Scalar.Exact K] [IsStrictOrderedRing K] nonzero forgotten
  buildable in
/-- Without its exponent the term is a convertible unit of its own. -/
theorem Joinable.convertible {t : Term K} (joinable : Joinable o asked t) :
    t.withoutExponent = .ok ⟨t.unit, t.scaling, 1⟩ ∧
      o.lexicon.deref (.term ⟨t.unit, t.scaling, 1⟩) = .ok ⟨[⟨t.unit, t.scaling, 1⟩]⟩ ∧
      (⟨[⟨t.unit, t.scaling, 1⟩]⟩ : Compound K).dimension = .ok t.unit.dimension ∧
      o.Convertible ⟨[⟨t.unit, t.scaling, 1⟩]⟩ := by
  have base := joinable.askedFor.1
  have sound : (⟨[⟨t.unit, t.scaling, 1⟩]⟩ : Compound K).Sound o.Reducing := by
    refine ⟨fun u mem => ?_, List.pairwise_singleton _ _⟩
    obtain rfl := List.mem_singleton.mp mem
    exact ⟨⟨⟨base.base, joinable.reduces⟩, by simp, by simp [maxExponent], base.accepted⟩,
      joinable.visible⟩
  have power : t.unit.dimension.pow 1 = t.unit.dimension := Dimension.ext_exponent fun a => by simp
  have total : (⟨[⟨t.unit, t.scaling, 1⟩]⟩ : Compound K).total = t.unit.dimension :=
    Dimension.ext_exponent fun a => by simp
  have convertible : o.Convertible ⟨[⟨t.unit, t.scaling, 1⟩]⟩ := by
    refine convertible_of_apart sound (List.pairwise_singleton _ _) (fun u mem => ?_) ?_
    · obtain rfl := List.mem_singleton.mp mem
      show (t.unit.dimension.pow 1).InRange
      exact power.symm ▸ joinable.inRange
    · exact total.symm ▸ joinable.inRange
  have made : Term.make t.unit t.scaling 1 = .ok ⟨t.unit, t.scaling, 1⟩ :=
    Term.make_eq_ok.mpr ⟨rfl, by simp, by simp [maxExponent], base.accepted⟩
  exact ⟨made, sound.ofTerms_terms, Compound.dimension_single joinable.inRange, convertible⟩

/-- Terms of one dimension convert to one another. -/
theorem yields_termConversion (apart : ToldApart o.lexicon asked) {t head : Term K}
    (own : Joinable o asked t) (other : Joinable o asked head)
    (alike : head.unit.dimension = t.unit.dimension) :
    (termConversion t head).Yields (Echoes o asked)
      fun found => ∃ c, found = some c ∧ c.factor.value ≠ 0 := by
  obtain ⟨made, meant, dimension, convertible⟩ := own.convertible
  obtain ⟨made', meant', dimension', convertible'⟩ := other.convertible
  rw [alike] at dimension'
  have parallel : Parallel (Echoes o asked) False o.ConversionsAgree (termConversion t head)
      (termConversion t head) :=
    parallel_termConversion nonzero forgotten apart own.askedFor other.askedFor
  have keeps := (parallel.settles forgotten.echoes).keeps
  have computes : (compute mergeFactor t.unit.dimension ⟨[⟨t.unit, t.scaling, 1⟩]⟩
      ⟨[⟨head.unit, head.scaling, 1⟩]⟩).Yields (Echoes o asked)
        fun found => ∃ c, found = some c := by
    refine yields_compute nonzero forgotten buildable ?_ ?_
    · rw [mergeFactor_term made meant]
      exact .pure ⟨by simp, convertible⟩
    · rw [mergeFactor_term made' meant']
      exact .pure ⟨by simp, convertible'⟩
  have answers (s : Session K) (echoes : Echoes o asked s) :
      ∃ x, ((termConversion t head).apply s).1 = .ok x ∧ ∃ c, x = some c := by
    rw [termConversion_eq, Action.apply_bind, Action.apply_lift, made]
    dsimp only
    rw [Action.apply_bind, Action.apply_lift, made']
    obtain ⟨c, given⟩ := conversionIn_isSome meant meant' dimension dimension' computes echoes
      fun found known => by
        obtain ⟨_, x, run, c, rfl⟩ := computes o forgotten.echoes
        have same := echoes.answers _ _ _ found (own.askedFor.2 _ _ made meant)
          (other.askedFor.2 _ _ made' meant') known
        rw [run] at same
        obtain ⟨c, isC, _⟩ := same.some_of_right
        exact ⟨c, Except.ok.inj isC⟩
    exact ⟨some c, given, c, rfl⟩
  refine (Yields.of_keeps keeps answers).weaken fun x ⟨⟨c, isSome⟩, y, _, agree⟩ => ?_
  subst isSome
  cases agree with
  | some agrees => exact ⟨c, rfl, agrees.factor.left⟩

end Session

end Metrology
