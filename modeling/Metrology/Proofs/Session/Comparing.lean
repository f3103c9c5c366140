import Metrology.Proofs.Session.Settling

/-!
# Conversions do not depend on what is remembered

Two sessions whose memories are right convert alike: merged units are the same, routes and reductions
agree, and where one remembers a conversion the other computes one that agrees. Conversions are
remembered by the symbols of units, so units that are compared must not share a symbol.
-/
namespace Metrology

variable {K : Type}

/-- A term of the unit, without its exponent, is this unit. -/
def Compound.HasPart [Scalar K] (u c : Compound K) : Prop :=
  ∃ t ∈ u.terms, ∃ v, t.withoutExponent = .ok v ∧ Compound.ofTerms [v] = .ok c

namespace Session

open Metrology.Action (Parallel Settles)

variable [Field K] [LinearOrder K] [Scalar K]

/-- Units of a lexicon no two of which share a symbol. -/
structure ToldApart (lex : Lexicon K) (asked : Compound K → Prop) : Prop where
  sound : ∀ c, asked c → c.Sound lex.Names
  distinct : ∀ u v, asked u → asked v → u.write .ascii = v.write .ascii → u = v

variable {o s : Session K} {asked : Compound K → Prop} {d : Dimension} {lax : Prop}

/-! ### Answers -/

omit [Field K] [LinearOrder K] in
/-- Whether a unit passes is told by the registries alone. -/
theorem validate_of_registries (same : SameRegistries o s) (d : Dimension) (ref : UnitRef K) :
    ((validate d ref).apply s).1 = ((validate d ref).apply o).1 := by
  rw [validate, Action.apply_bind, Action.apply_bind, Action.apply_get, Action.apply_get]
  dsimp only
  rw [same.lexicon, same.quantityTypes, Action.apply_bind, Action.apply_bind, Action.apply_lift,
    Action.apply_lift]
  cases o.lexicon.deref ref with
  | error e => rfl
  | ok unit =>
    dsimp only
    rw [Action.apply_bind, Action.apply_bind, Action.apply_lift, Action.apply_lift]
    cases unit.dimension with
    | error e => rfl
    | ok e =>
      dsimp only
      split
      next => rfl
      next => split <;> rfl

omit [LinearOrder K] in
/-- A conversion may be remembered that is computed without a memory. -/
theorem Echoes.putAnswer (apart : ToldApart o.lexicon asked) (echoes : Echoes o asked s)
    {u v : Compound K} (askedU : asked u) (askedV : asked v) {found : Option (Conversion K)}
    (same : Matches o.ConversionsAgree (.ok found) ((compute mergeFactor d u v).apply o).1) :
    Echoes o asked (s.putChart d { s.chart d with
      answers := (s.chart d).answers.put (u.write .ascii, v.write .ascii) found }) where
  registries := echoes.registries.of_eq rfl rfl rfl
  routes := forall_putChart (P := fun d c => ∀ r, c.routes = some r →
      ∃ es, EdgeStore.current o.lexicon o.store d = .ok es ∧ r.Right (drawn o.lexicon d es))
    (echoes.routes d) echoes.routes
  factors := echoes.factors
  answers := by
    refine forall_putChart (P := fun d c => ∀ u v found, asked u → asked v →
      c.answers.get? (u.write .ascii, v.write .ascii) = some found →
      Matches o.ConversionsAgree (.ok found) ((compute mergeFactor d u v).apply o).1)
      (fun x y given askedX askedY known => ?_) echoes.answers
    rw [Register.get?_put] at known
    split at known
    next key =>
      obtain ⟨src, dest⟩ := Prod.mk.inj key
      obtain rfl := apart.distinct u x askedU askedX src
      obtain rfl := apart.distinct v y askedV askedY dest
      exact Option.some.inj known ▸ same
    next => exact echoes.answers d x y given askedX askedY known

omit [LinearOrder K] in
/-- A conversion that is looked up is the one that is computed without a memory. -/
theorem parallel_answer (forgotten : o.Forgotten) (apart : ToldApart o.lexicon asked)
    {src dest : UnitRef K} (askedSrc : ∀ u, o.lexicon.deref src = .ok u → asked u)
    (askedDest : ∀ v, o.lexicon.deref dest = .ok v → asked v)
    (computes : ∀ u v, o.lexicon.deref src = .ok u → o.lexicon.deref dest = .ok v →
      Parallel (Echoes o asked) False o.ConversionsAgree (compute mergeFactor d u v)
        (compute mergeFactor d u v)) :
    Parallel (Echoes o asked) lax o.ConversionsAgree (conversionIn d src dest)
      (conversionIn d src dest) := by
  have settles : (conversionIn d src dest).Settles (Echoes o asked) o.ConversionsAgree (do
      let u ← ((validate d src).apply o).1
      let v ← ((validate d dest).apply o).1
      ((compute mergeFactor d u v).apply o).1) := by
    intro s echoes
    rw [conversionIn, answer_apply, validate_of_registries echoes.registries,
      validate_of_registries echoes.registries]
    cases passes : ((validate d src).apply o).1 with
    | error e => exact ⟨echoes, .failed (.refl e)⟩
    | ok u =>
      cases passes' : ((validate d dest).apply o).1 with
      | error e => exact ⟨echoes, .failed (.refl e)⟩
      | ok v =>
        have meant := deref_of_validate passes
        have meant' := deref_of_validate passes'
        dsimp only
        cases known : (s.chart d).answers.get? (u.write .ascii, v.write .ascii) with
        | some found =>
          exact ⟨echoes, echoes.answers d u v found (askedSrc u meant) (askedDest v meant') known⟩
        | none =>
          obtain ⟨kept, same⟩ := (computes u v meant meant').settles forgotten.echoes s echoes
          rcases run : (compute mergeFactor d u v).apply s with ⟨e | found, t⟩
          · rw [run] at kept same
            exact ⟨kept, same⟩
          · rw [run] at kept same
            exact ⟨kept.putAnswer apart (askedSrc u meant) (askedDest v meant') same, same⟩
  exact settles.parallel settles fun _ _ _ here there =>
    conversionsAgree_trans here (conversionsAgree_symm there)

variable [IsStrictOrderedRing K] [Scalar.Exact K] (nonzero : o.NonZero) (forgotten : o.Forgotten)
include nonzero forgotten

/-- Merged units are connected alike. -/
theorem parallel_connect {f g : Factor K} (agrees : f.Agrees o.Balanced g) {src dest : Compound K}
    (soundSrc : src.Sound o.lexicon.Names) (soundDest : dest.Sound o.lexicon.Names) :
    Parallel (Echoes o asked) lax o.FactorsAgree (connect d f src dest) (connect d g src dest) := by
  refine .bind (.liftSame _) fun m _ ⟨same, srcScaled⟩ => ?_
  subst same
  refine .bind (.liftSame _) fun n _ ⟨same, destScaled⟩ => ?_
  subst same
  have up : (Factor.exact m).Agrees o.Balanced (.exact m) :=
    .refl (nonzero.lexicon.multiplier_ne_zero soundSrc srcScaled)
  have down : (Factor.exact n).Agrees o.Balanced (.exact n) :=
    .refl (nonzero.lexicon.multiplier_ne_zero soundDest destScaled)
  refine .bind (.lift ((agrees.mul up).div down)) fun p q quotients => ?_
  refine .bind (.liftSame _) fun u _ ⟨same, srcBare⟩ => ?_
  subst same
  refine .bind (.liftSame _) fun v _ ⟨same, destBare⟩ => ?_
  subst same
  refine .bind (parallel_route nonzero d _ _) fun path path' same => ?_
  cases same with
  | some along => exact .pure (.some (quotients.mul along))
  | none =>
    refine .bind (parallel_toBase nonzero forgotten (soundSrc.withoutPrefixes srcBare) true)
      fun base base' same => ?_
    refine .bind (parallel_toBase nonzero forgotten (soundDest.withoutPrefixes destBare) true)
      fun base₁ base₁' same₁ => ?_
    cases same with
    | none => exact .pure .none
    | some reduced =>
      cases same₁ with
      | none => exact .pure .none
      | some reduced₁ =>
        exact .bind (.lift (reduced.div reduced₁)) fun x y ratios =>
          .pure (.some (quotients.mul ratios))

/-- Merged units that are the same, with factors that agree. -/
def MergedAlike (o : Session K) (x y : Factor K × Compound K) : Prop :=
  x.1.Agrees o.Balanced y.1 ∧ x.2 = y.2 ∧ x.2.Sound o.lexicon.Names

/-- Units that merge alike are converted alike. -/
theorem parallel_compute {merge : Merging K} {u v : Compound K}
    (mergesU : Parallel (Echoes o asked) lax o.MergedAlike (merge u) (merge u))
    (mergesV : Parallel (Echoes o asked) lax o.MergedAlike (merge v) (merge v)) :
    Parallel (Echoes o asked) lax o.ConversionsAgree (compute merge d u v)
      (compute merge d u v) := by
  refine .bind mergesU fun ⟨f, src⟩ ⟨g, _⟩ ⟨agrees, same, soundSrc⟩ => ?_
  obtain rfl : src = _ := same
  refine .bind mergesV fun ⟨f', dest⟩ ⟨g', _⟩ ⟨agrees', same, soundDest⟩ => ?_
  obtain rfl : dest = _ := same
  refine .bind (.lift (agrees.div agrees')) fun p q quotients => ?_
  refine .bind (.liftSame _) fun alike _ ⟨same, _⟩ => ?_
  subst same
  dsimp only
  split
  next => exact .pure (.some ⟨rfl, rfl, rfl, quotients⟩)
  next =>
    refine .bind (parallel_connect nonzero forgotten quotients soundSrc soundDest)
      fun found found' same => .pure ?_
    cases same with
    | none => exact .none
    | some connected => exact .some ⟨rfl, rfl, rfl, connected⟩

/-! ### Merging -/

/-- A term of the lexicon that stands for a unit which was asked for, its exponent left aside. -/
def AskedFor (o : Session K) (asked : Compound K → Prop) (t : Term K) : Prop :=
  t.Sound o.lexicon.Names ∧
    ∀ v c, t.withoutExponent = .ok v → Compound.ofTerms [v] = .ok c → asked c

variable (apart : ToldApart o.lexicon asked)
include apart

/-- Single terms convert alike, since they merge into themselves. -/
theorem parallel_termConversion {t head : Term K} (own : AskedFor o asked t)
    (other : AskedFor o asked head) :
    Parallel (Echoes o asked) lax o.ConversionsAgree (termConversion t head)
      (termConversion t head) := by
  rw [termConversion_eq]
  refine .bind (.liftSame _) fun v _ ⟨same, made⟩ => ?_
  subst same
  refine .bind (.liftSame _) fun w _ ⟨same, made'⟩ => ?_
  subst same
  refine parallel_answer forgotten apart (fun x meant => own.2 v x made meant)
    (fun y meant => other.2 w y made' meant) fun x y meant meant' => ?_
  have merges {z : Compound K} (is : asked z) (self : (mergeFactor z : Action (Session K) _) =
      return (.one, z)) : Parallel (Echoes o asked) False o.MergedAlike (mergeFactor z)
        (mergeFactor z) := by
    rw [self]
    exact .pure ⟨.one, rfl, apart.sound z is⟩
  exact parallel_compute nonzero forgotten
    (merges (own.2 v x made meant) (mergeFactor_term made meant))
    (merges (other.2 w y made' meant') (mergeFactor_term made' meant'))

/-- Groups that are the same, with factors that agree. -/
def GroupedAlike (o : Session K) (asked : Compound K → Prop) (x y : Factor K × List (Group K)) :
    Prop :=
  x.1.Agrees o.Balanced y.1 ∧ x.2 = y.2 ∧ ∀ g ∈ x.2, AskedFor o asked g.head

/-- A term joins the same group. -/
theorem parallel_joinGroup {t : Term K} (own : AskedFor o asked t) {gs : List (Group K)}
    (heads : ∀ g ∈ gs, AskedFor o asked g.head) :
    Parallel (Echoes o asked) lax (Option.Rel (GroupedAlike o asked)) (joinGroup t gs)
      (joinGroup t gs) := by
  induction gs with
  | nil => exact .pure .none
  | cons g rest ih =>
    have head := heads g List.mem_cons_self
    have later := ih fun h mem => heads h (List.mem_cons_of_mem _ mem)
    have joins : ∀ c c' : Option (Conversion K), o.ConversionsAgree c c' →
        Parallel (Echoes o asked) lax (Option.Rel (GroupedAlike o asked)) (joinHead t g rest c)
          (joinHead t g rest c') := by
      intro c c' same
      cases same with
      | some agrees =>
        refine .bind (.lift (agrees.factor.pow t.exponent)) fun p q powers => .pure (.some ?_)
        refine ⟨powers, rfl, fun h mem => ?_⟩
        rcases List.mem_cons.mp mem with rfl | inside
        · exact head
        · exact heads h (List.mem_cons_of_mem _ inside)
      | none =>
        refine .bind later fun found found' same => .pure ?_
        cases same with
        | none => exact .none
        | some grouped =>
          obtain ⟨agrees, same, opened⟩ := grouped
          refine .some ⟨agrees, congrArg (g :: ·) same, fun h mem => ?_⟩
          rcases List.mem_cons.mp mem with rfl | inside
          · exact head
          · exact opened h inside
    rw [joinGroup_cons]
    split
    next =>
      exact .bind (parallel_termConversion nonzero forgotten apart own head) joins
    next => exact joins none none .none

theorem parallel_groupTerms {f g : Factor K} (agrees : f.Agrees o.Balanced g) {gs : List (Group K)}
    (heads : ∀ g ∈ gs, AskedFor o asked g.head) {ts : List (Term K)}
    (terms : ∀ t ∈ ts, AskedFor o asked t) :
    Parallel (Echoes o asked) lax (GroupedAlike o asked) (groupTerms f gs ts)
      (groupTerms g gs ts) := by
  induction ts generalizing f g gs with
  | nil => exact .pure ⟨agrees, rfl, heads⟩
  | cons t rest ih =>
    have own := terms t List.mem_cons_self
    have later := fun u mem => terms u (List.mem_cons_of_mem t mem)
    refine .bind (parallel_joinGroup nonzero forgotten apart own heads) fun found found' same => ?_
    cases same with
    | some grouped =>
      obtain ⟨powers, same, opened⟩ := grouped
      rename_i x y
      obtain ⟨p, joined⟩ := x
      obtain ⟨q, _⟩ := y
      obtain rfl : joined = _ := same
      exact ih (agrees.mul powers) opened later
    | none =>
      refine ih agrees (fun h mem => ?_) later
      rcases List.mem_append.mp mem with old | new
      · exact heads h old
      · exact List.mem_singleton.mp new ▸ own

/-- A unit merges into the same unit. -/
theorem parallel_mergeFactor {u : Compound K} (terms : ∀ t ∈ u.terms, AskedFor o asked t) :
    Parallel (Echoes o asked) lax o.MergedAlike (mergeFactor u) (mergeFactor u) := by
  refine .bind (parallel_groupTerms nonzero forgotten apart .one
    (fun _ mem => absurd mem List.not_mem_nil) terms) fun ⟨f, gs⟩ ⟨g, _⟩ ⟨agrees, same, heads⟩ => ?_
  obtain rfl : gs = _ := same
  dsimp only
  rw [Action.mapM_lift]
  refine .bind (.liftSame _) fun ts _ ⟨same, made⟩ => ?_
  subst same
  refine .bind (.liftSame _) fun merged _ ⟨same, product⟩ => ?_
  subst same
  refine .pure ⟨agrees, rfl, Compound.sound_of_ofTerms (fun t mem => ?_) product⟩
  obtain ⟨h, inside, same⟩ := exists_of_mem_mapM made mem
  exact Term.sound_of_make (heads h (List.mem_filter.mp inside).1).1.base same

/-- Units that were asked for are converted alike. -/
theorem parallel_conversionIn {src dest : UnitRef K}
    (askedSrc : ∀ u, o.lexicon.deref src = .ok u → asked u ∧ ∀ c, u.HasPart c → asked c)
    (askedDest : ∀ v, o.lexicon.deref dest = .ok v → asked v ∧ ∀ c, v.HasPart c → asked c) :
    Parallel (Echoes o asked) lax o.ConversionsAgree (conversionIn d src dest)
      (conversionIn d src dest) := by
  have merges {u : Compound K} (is : asked u) (parts : ∀ c, u.HasPart c → asked c) :
      Parallel (Echoes o asked) False o.MergedAlike (mergeFactor u) (mergeFactor u) :=
    parallel_mergeFactor nonzero forgotten apart fun t mem =>
      ⟨((apart.sound u is).terms t mem).1, fun v c made meant => parts c ⟨t, mem, v, made, meant⟩⟩
  exact parallel_answer forgotten apart (fun u meant => (askedSrc u meant).1)
    (fun v meant => (askedDest v meant).1) fun u v meant meant' =>
      parallel_compute nonzero forgotten (merges (askedSrc u meant).1 (askedSrc u meant).2)
        (merges (askedDest v meant').1 (askedDest v meant').2)

end Session

end Metrology
