import Metrology.Proofs.Session.Knowing

/-!
# Conversions that are granted

A conversion is computed from what its units merge into, and merging asks for conversions between
single terms. So it is given exactly where the registries relate the units, whatever was asked before,
if units that are compared are told apart by their symbols.
-/
namespace Metrology.Session

variable {K : Type} [Scalar K] {good : K → Prop} {fault : Error → Prop}
variable {o s : Session K} {asked : Compound K → Prop}
  {states : Compound K → Compound K → Conversion K → Prop} {d : Dimension} {u v : Compound K}
  {t head : Term K}

/-- The unit is the term without its exponent. -/
def IsPart (t : Term K) (c : Compound K) : Prop :=
  ∃ v, t.withoutExponent = .ok v ∧ Compound.ofTerms [v] = .ok c

/-- Merging the units fails with an error, or comparing what they merge into does: an exponent or a
dimension is out of range. -/
def MergingFails (o : Session K) (u v : Compound K) (e : Error) : Prop :=
  o.merged u = .error e ∨ o.merged v = .error e ∨
    ∃ m n, o.merged u = .ok m ∧ o.merged v = .ok n ∧ m.same n = .error e

/-- The factor is the one along a route between the units without their prefixes, which are taken
into account. -/
def Along (o : Session K) (good : K → Prop) (d : Dimension) (f : Factor K) (src dest x y : Compound K)
    (found : Factor K) : Prop :=
  ∃ es m n q way, EdgeStore.current o.lexicon o.store d = .ok es ∧ src.multiplier = .ok m ∧
    dest.multiplier = .ok n ∧ (f.mul (.exact m)).div (.exact n) = .ok q ∧
    (drawn o.lexicon d es).Tells good (x.write .ascii) (y.write .ascii) (some way) ∧
    found = q.mul way.factor

/-- The factor is computed from what two units merge into: as it is if that is the same, and along a
route where there is one. -/
def Computed (o : Session K) (good : K → Prop) (d : Dimension) (Q R : Factor K × Compound K → Prop)
    (found : Factor K) : Prop :=
  good found.value ∧ ∃ src dest q same, Q src ∧ R dest ∧ src.1.div dest.1 = .ok q ∧
    src.2.same dest.2 = .ok same ∧ (same = true → found = q) ∧
    (same = false → ∀ x y, src.2.withoutPrefixes = .ok x → dest.2.withoutPrefixes = .ok y →
      o.Coupled d (x.write .ascii) (y.write .ascii) → o.Along good d q src.2 dest.2 x y found)

theorem Granted.weaken {states' : Compound K → Compound K → Conversion K → Prop}
    {found : Option (Conversion K)} (granted : o.Granted states d u v found)
    (implies : ∀ c, states u v c → states' u v c) : o.Granted states' d u v found :=
  ⟨granted.1, fun c same => implies c (granted.2 c same)⟩

/-- No other unit that was asked for has the symbol of this one. -/
def Unmistaken (asked : Compound K → Prop) (u : Compound K) : Prop :=
  ∀ x, asked x → u.write .ascii = x.write .ascii → u = x

omit [Scalar K] in
theorem unmistaken_of_asked (apart : ToldApart o.lexicon asked) (own : asked u) : Unmistaken asked u :=
  fun x other => apart.distinct u x own other

/-- A conversion may be remembered that is granted. -/
theorem Knows.putAnswer (knows : Knows o good asked states s) (own : Unmistaken asked u)
    (own' : Unmistaken asked v) {found : Option (Conversion K)}
    (granted : o.Granted states d u v found) :
    Knows o good asked states (s.putChart d { s.chart d with
      answers := (s.chart d).answers.put (u.write .ascii, v.write .ascii) found }) where
  registries := knows.registries.of_eq rfl rfl rfl
  routes := forall_putChart (P := fun d c => ∀ r, c.routes = some r →
      ∃ es, EdgeStore.current o.lexicon o.store d = .ok es ∧ r.Finds good (drawn o.lexicon d es))
    (knows.routes d) knows.routes
  factors := knows.factors
  answers := by
    refine forall_putChart (P := fun d c => ∀ u v found, asked u → asked v →
      c.answers.get? (u.write .ascii, v.write .ascii) = some found → o.Granted states d u v found)
      (fun x y given askedX askedY known => ?_) knows.answers
    rw [Register.get?_put] at known
    split at known
    next key =>
      obtain ⟨src, dest⟩ := Prod.mk.inj key
      obtain rfl := own x askedX src
      obtain rfl := own' y askedY dest
      exact Option.some.inj known ▸ granted
    next => exact knows.answers d x y given askedX askedY known

/-- A conversion that is looked up between units that were asked for is granted if one that is computed
is. -/
theorem ends_lookup {src dest : UnitRef K}
    (own : ∀ u, o.lexicon.deref src = .ok u → Unmistaken asked u)
    (own' : ∀ v, o.lexicon.deref dest = .ok v → Unmistaken asked v) {fails : Error → Prop}
    (refusesSrc : ∀ e, ((validate d src).apply o).1 = .error e → fails e)
    (refusesDest : ∀ e, ((validate d dest).apply o).1 = .error e → fails e)
    (computes : ∀ u v, o.lexicon.deref src = .ok u → o.lexicon.deref dest = .ok v →
      u.dimension = .ok d → v.dimension = .ok d →
      (compute mergeFactor d u v).Ends (Knows o good asked states) (o.Granted states d u v) fails) :
    (conversionIn d src dest).Ends (Knows o good asked states) (fun found => ∃ u v,
      (o.lexicon.deref src = .ok u ∧ u.dimension = .ok d) ∧
        (o.lexicon.deref dest = .ok v ∧ v.dimension = .ok d) ∧
        (asked u → asked v → o.Granted states d u v found))
      fails := by
  intro s knows
  rw [conversionIn, answer_apply, validate_of_registries knows.registries,
    validate_of_registries knows.registries]
  cases passes : ((validate d src).apply o).1 with
  | error e => exact ⟨knows, refusesSrc e passes⟩
  | ok u =>
    cases passes' : ((validate d dest).apply o).1 with
    | error e => exact ⟨knows, refusesDest e passes'⟩
    | ok v =>
      obtain ⟨meant, dimension⟩ := validate_eq_ok.mp passes
      obtain ⟨meant', dimension'⟩ := validate_eq_ok.mp passes'
      dsimp only
      cases known : (s.chart d).answers.get? (u.write .ascii, v.write .ascii) with
      | some found =>
        exact ⟨knows, u, v, ⟨meant, dimension⟩, ⟨meant', dimension'⟩, fun askedU askedV =>
          knows.answers d u v found askedU askedV known⟩
      | none =>
        obtain ⟨kept, brings⟩ := computes u v meant meant' dimension dimension' s knows
        rcases run : (compute mergeFactor d u v).apply s with ⟨e | found, t⟩
        · rw [run] at kept brings
          exact ⟨kept, brings⟩
        · rw [run] at kept brings
          exact ⟨kept.putAnswer (own u meant) (own' v meant') brings, u, v, ⟨meant, dimension⟩,
            ⟨meant', dimension'⟩, fun _ _ => brings⟩

variable (within : Scalar.Within good fault) (furnished : o.Furnished good)
  (reads : (∀ e, fault e) ∨ o.Readable fault)

/-! ### Computing -/

section Computing

include within furnished reads

/-- Merged units that differ are connected along a route or by SI base units. -/
theorem ends_connect {f : Factor K} (own : good f.value) {src dest x y : Compound K}
    (sound : src.Sound o.lexicon.Names) (sound' : dest.Sound o.lexicon.Names)
    (bare : src.withoutPrefixes = .ok x) (bare' : dest.withoutPrefixes = .ok y) :
    (connect d f src dest).Ends (Knows o good asked states) (fun found =>
      Found good (o.Coupled d (x.write .ascii) (y.write .ascii) ∨ o.Grounded x ∧ o.Grounded y) found ∧
        ∀ g ∈ found, o.Coupled d (x.write .ascii) (y.write .ascii) →
          o.Along good d f src dest x y g) fault := by
  refine .bind (.lift (Compound.brings_multiplier within furnished.prefixes sound).told)
    fun m ⟨isM, up⟩ => ?_
  refine .bind (.lift (Compound.brings_multiplier within furnished.prefixes sound').told)
    fun n ⟨isN, down⟩ => ?_
  have scaled : good (f.mul (.exact m)).value := Factor.good_mul within own (g := .exact m) up
  refine .bind (.lift (Factor.brings_div within scaled (g := .exact n) down).told)
    fun q ⟨isQ, quotient⟩ => ?_
  rw [bare, bare']
  refine .bind (.lift (Q := (x = ·)) rfl) fun _ same => ?_
  subst same
  refine .bind (.lift (Q := (y = ·)) rfl) fun _ same => ?_
  subst same
  refine .bind (ends_route within furnished reads _ _) fun path ⟨joined, es, registered, tells⟩ => ?_
  cases path with
  | some way =>
    refine .pure ⟨⟨⟨fun _ => .inl (joined.mp rfl), fun _ => rfl⟩, fun g same => ?_⟩,
      fun g same _ => ⟨es, m, n, q, way, registered, isM, isN, isQ, tells, ?_⟩⟩
    · exact Option.some.inj same ▸ Factor.good_mul within quotient (tells.between way rfl).factor
    · exact (Option.some.inj same).symm
  | none =>
    have apart : ¬ o.Coupled d (x.write .ascii) (y.write .ascii) := fun coupled =>
      absurd (joined.mpr coupled) nofun
    refine .bind (ends_toBase within furnished reads (sound.withoutPrefixes bare) true)
      fun base ⟨reduces, size⟩ => ?_
    refine .bind (ends_toBase within furnished reads (sound'.withoutPrefixes bare') true)
      fun base' ⟨reduces', size'⟩ => ?_
    cases base with
    | none =>
      refine .pure ⟨⟨⟨nofun, fun related => ?_⟩, nofun⟩, nofun⟩
      exact absurd (reduces.mpr (related.resolve_left apart).1) nofun
    | some f =>
      cases base' with
      | none =>
        refine .pure ⟨⟨⟨nofun, fun related => ?_⟩, nofun⟩, nofun⟩
        exact absurd (reduces'.mpr (related.resolve_left apart).2) nofun
      | some g =>
        refine .bind (.lift (Factor.brings_div within (size f rfl) (size' g rfl))) fun r ratio => ?_
        refine .pure ⟨⟨⟨fun _ => .inr ⟨reduces.mp rfl, reduces'.mp rfl⟩, fun _ => rfl⟩, ?_⟩,
          fun _ _ coupled => absurd coupled apart⟩
        exact fun h same => Option.some.inj same ▸ Factor.good_mul within quotient ratio

/-- A conversion is computed where the registries relate the units. -/
theorem ends_compute {merge : Merging K} {Q R : Factor K × Compound K → Prop}
    (sound : u.Sound o.lexicon.Names) (sound' : v.Sound o.lexicon.Names)
    (merges : (merge u).Ends (Knows o good asked states)
      (fun r => (o.merged u = .ok r.2 ∧ good r.1.value) ∧ Q r) fun e => fault e ∨ o.merged u = .error e)
    (merges' : (merge v).Ends (Knows o good asked states)
      (fun r => (o.merged v = .ok r.2 ∧ good r.1.value) ∧ R r)
      fun e => fault e ∨ o.merged v = .error e) :
    (compute merge d u v).Ends (Knows o good asked states)
      (o.Granted (fun _ _ c => o.Computed good d Q R c.factor) d u v)
      fun e => fault e ∨ o.MergingFails u v e := by
  refine .bind (merges.weaken (fun _ own => own) fun e own => own.imp_right .inl)
    fun ⟨f, m⟩ ⟨⟨isM, up⟩, left⟩ => ?_
  refine .bind (merges'.weaken (fun _ own => own) fun e own => own.imp_right fun own => .inr (.inl own))
    fun ⟨g, n⟩ ⟨⟨isN, down⟩, right⟩ => ?_
  have tidy := (terms_of_merged sound isM).2
  have tidy' := (terms_of_merged sound' isN).2
  refine .bind (.lift ((Factor.brings_div within up down).told.weaken (fun _ own => own)
    fun _ => .inl)) fun q ⟨isQ, quotient⟩ => ?_
  have compared : Brings (fun same => m.same n = .ok same)
      (fun e => fault e ∨ o.MergingFails u v e) (m.same n) :=
    .of_given (fun _ same => same) fun e failed => .inr (.inr (.inr ⟨m, n, isM, isN, failed⟩))
  refine .bind (.lift compared) fun same isSame => ?_
  cases same with
  | true =>
    refine .pure ⟨⟨m, n, isM, isN, fun _ => .inl isSame, fun _ => rfl⟩, fun c given => ?_⟩
    obtain rfl := Option.some.inj given
    exact ⟨quotient, (f, m), (g, n), q, true, left, right, isQ, isSame, fun _ => rfl, nofun⟩
  | false =>
    have bare := tidy.withoutPrefixes
    have bare' := tidy'.withoutPrefixes
    refine .bind ((ends_connect within furnished reads quotient tidy.sound tidy'.sound bare bare').weaken
      (fun _ own => own) fun _ => .inl) fun found ⟨⟨joined, size⟩, along⟩ => .pure ⟨?_, fun c given => ?_⟩
    · refine ⟨m, n, isM, isN, ?_⟩
      rw [Option.isSome_map, joined]
      refine ⟨fun tied => .inr ⟨_, _, bare, bare', tied⟩, ?_⟩
      rintro (same | ⟨x, y, isX, isY, tied⟩)
      · rw [isSame] at same
        cases same
      · obtain rfl := Except.ok.inj (bare.symm.trans isX)
        obtain rfl := Except.ok.inj (bare'.symm.trans isY)
        exact tied
    · obtain ⟨h, isFound, rfl⟩ := Option.map_eq_some_iff.mp given
      refine ⟨size h isFound, (f, m), (g, n), q, false, left, right, isQ, isSame, nofun,
        fun _ x y isX isY coupled => ?_⟩
      obtain rfl := Except.ok.inj (bare.symm.trans isX)
      obtain rfl := Except.ok.inj (bare'.symm.trans isY)
      exact along h isFound coupled

end Computing

/-! ### Merging -/

/-- The dimension of a single term is that of its unit. -/
theorem Readable.dimension_part (readable : o.Readable fault) (sound : t.Sound o.lexicon.Names)
    {c : Compound K} (part : IsPart t c) : c.dimension = .ok t.unit.dimension := by
  obtain ⟨v, made, single⟩ := part
  obtain ⟨c', made', single', shape⟩ := exists_part sound
  obtain rfl := Except.ok.inj (made.symm.trans made')
  obtain rfl := Except.ok.inj (single.symm.trans single')
  obtain ⟨inRange, scalars⟩ := readable.dimensions _ t.unit sound.base.1
  rcases shape with ⟨scalar, rfl⟩ | ⟨_, rfl⟩
  · rw [scalars scalar]
    rfl
  · exact Compound.dimension_single inRange

include within in
/-- A single term merges into itself. -/
theorem ends_mergeFactor_part {E : Error → Prop} (part : IsPart t u) :
    (mergeFactor u).Ends (Knows o good asked states)
      (fun r => (o.merged u = .ok r.2 ∧ good r.1.value) ∧ r = (.one, u)) E := by
  obtain ⟨w, made, single⟩ := part
  rw [mergeFactor_term made (show o.lexicon.deref (.term w) = .ok u from single)]
  exact .pure ⟨⟨merged_part made single, Factor.good_one within⟩, rfl⟩

theorem not_mergingFails_part (part : IsPart t u) (part' : IsPart head v)
    (dimension : u.dimension = .ok d) (dimension' : v.dimension = .ok d) {e : Error} :
    ¬ o.MergingFails u v e := by
  obtain ⟨_, made, single⟩ := part
  obtain ⟨_, made', single'⟩ := part'
  rintro (failed | failed | ⟨m, n, isM, isN, failed⟩)
  · rw [merged_part made single] at failed
    cases failed
  · rw [merged_part made' single'] at failed
    cases failed
  · obtain rfl := Except.ok.inj ((merged_part made single).symm.trans isM)
    obtain rfl := Except.ok.inj ((merged_part made' single').symm.trans isN)
    rw [Compound.same, dimension, dimension'] at failed
    split at failed <;> cases failed

section Merging

include within furnished reads

/-- Merging has been asked for conversions between single terms, and what is computed for them is
stated. -/
structure Settled (o : Session K) (good : K → Prop) (asked : Compound K → Prop)
    (states : Compound K → Compound K → Conversion K → Prop) : Prop where
  apart : ToldApart o.lexicon asked
  sized : ∀ u v c, states u v c → good c.factor.value
  single : ∀ t h x y c, AskedFor o asked t → AskedFor o asked h → IsPart t x → IsPart h y →
    o.Computed good t.unit.dimension (· = (.one, x)) (· = (.one, y)) c.factor → states x y c

variable (settled : Settled o good asked states)
include settled

/-- Single terms of one dimension convert to one another where they join. -/
theorem ends_termConversion (own : AskedFor o asked t) (other : AskedFor o asked head)
    (alike : head.unit.dimension = t.unit.dimension) :
    (termConversion t head).Ends (Knows o good asked states) (fun found =>
      (found.isSome ↔ o.Joins t head) ∧ ∀ c ∈ found, ∃ x y, IsPart t x ∧ IsPart head y ∧ states x y c)
      fault := by
  obtain ⟨x, made, single, _⟩ := exists_part own.1
  obtain ⟨y, made', single', _⟩ := exists_part other.1
  have part : IsPart t x := ⟨_, made, single⟩
  have part' : IsPart head y := ⟨_, made', single'⟩
  have meant : o.lexicon.deref (.term ⟨t.unit, t.scaling, 1⟩) = .ok x := single
  have meant' : o.lexicon.deref (.term ⟨head.unit, head.scaling, 1⟩) = .ok y := single'
  rw [termConversion_eq]
  refine .bind (.lift (Q := (⟨t.unit, t.scaling, 1⟩ = ·)) (by rw [made]; rfl)) fun _ same => ?_
  subst same
  refine .bind (.lift (Q := (⟨head.unit, head.scaling, 1⟩ = ·)) (by rw [made']; rfl)) fun _ same => ?_
  subst same
  have passes {r : Term K} {z : Compound K} (sound : r.Sound o.lexicon.Names) (part : IsPart r z)
      (meant : o.lexicon.deref (.term ⟨r.unit, r.scaling, 1⟩) = .ok z)
      (alike : r.unit.dimension = t.unit.dimension) (e : Error)
      (failed : ((validate t.unit.dimension (.term ⟨r.unit, r.scaling, 1⟩)).apply o).1 = .error e) :
      fault e := by
    refine reads.elim (· e) fun readable => ?_
    have dimension := readable.dimension_part sound part
    rw [alike] at dimension
    rw [validate_eq_ok.mpr ⟨meant, dimension⟩] at failed
    cases failed
  have asks (u : Compound K) (same : o.lexicon.deref (.term ⟨t.unit, t.scaling, 1⟩) = .ok u) :
      asked u := own.2 _ u made same
  have asks' (u : Compound K) (same : o.lexicon.deref (.term ⟨head.unit, head.scaling, 1⟩) = .ok u) :
      asked u := other.2 _ u made' same
  refine (ends_lookup (fun u same => unmistaken_of_asked settled.apart (asks u same))
    (fun v same => unmistaken_of_asked settled.apart (asks' v same)) (passes own.1 part meant rfl)
    (passes other.1 part' meant' alike) fun u v same same' dimension dimension' => ?_).weaken
      (fun found ⟨u, v, ⟨same, _⟩, ⟨same', _⟩, given⟩ => ?_) fun _ own => own
  · obtain rfl := Except.ok.inj (meant.symm.trans same)
    obtain rfl := Except.ok.inj (meant'.symm.trans same')
    refine (ends_compute within furnished reads (settled.apart.sound _ (own.2 _ _ made meant))
      (settled.apart.sound _ (other.2 _ _ made' meant')) (ends_mergeFactor_part within part)
      (ends_mergeFactor_part within part')).weaken
        (fun found granted => granted.weaken fun c => settled.single _ _ _ _ c own other part part')
        fun e failed => failed.resolve_right (not_mergingFails_part part part' dimension dimension')
  · obtain rfl := Except.ok.inj (meant.symm.trans same)
    obtain rfl := Except.ok.inj (meant'.symm.trans same')
    have granted := given (asks x meant) (asks' y meant')
    refine ⟨granted.1.isSome_iff.trans ?_, fun c given => ⟨x, y, part, part', granted.2 c given⟩⟩
    rw [joins_iff made single made' single']
    exact ⟨fun relates => ⟨alike, relates⟩, fun joined => joined.2⟩

omit within furnished reads settled in
/-- What joining a term to groups does: it goes to the first group that it joins, with the power of a
factor that is stated for the two, or it joins none of them. -/
def Places (o : Session K) (states : Compound K → Compound K → Conversion K → Prop) (t : Term K)
    (gs : List (Group K)) : Option (Factor K × List (Group K)) → Prop
  | none => ∀ g ∈ gs, ¬ o.Joins t g.head
  | some (p, joined) => ∃ before g behind x y c, gs = before ++ g :: behind ∧
      (∀ h ∈ before, ¬ o.Joins t h.head) ∧ o.Joins t g.head ∧ IsPart t x ∧ IsPart g.head y ∧
      states x y c ∧ c.factor.pow t.exponent = .ok p ∧
      joined = before ++ ⟨g.head, g.exponent + t.exponent⟩ :: behind

omit within furnished reads settled in
/-- The groups are the ones that the term is placed in. -/
theorem Places.place_eq {gs : List (Group K)} {found : Option (Factor K × List (Group K))}
    (places : Places o states t gs found) :
    place o.Joins t gs = (found.map (·.2)).getD (gs ++ [⟨t, t.exponent⟩]) := by
  cases found with
  | none => exact place_of_fresh places
  | some r =>
    obtain ⟨before, g, behind, _, _, _, rfl, fresh, joined, _, _, _, _, same⟩ := places
    exact (place_of_joined fresh joined).trans same.symm

/-- A term is placed in the groups. -/
theorem ends_joinGroup (own : AskedFor o asked t) {gs : List (Group K)}
    (heads : ∀ g ∈ gs, AskedFor o asked g.head) :
    (joinGroup t gs).Ends (Knows o good asked states) (Places o states t gs) fault := by
  induction gs with
  | nil => exact .pure (fun _ mem => absurd mem List.not_mem_nil)
  | cons g rest ih =>
    have later (other : ¬ o.Joins t g.head) : (joinHead t g rest none).Ends
        (Knows o good asked states) (Places o states t (g :: rest)) fault := by
      refine .bind (ih fun h mem => heads h (List.mem_cons_of_mem _ mem)) fun found places =>
        .pure ?_
      cases found with
      | none => exact List.forall_mem_cons.mpr ⟨other, places⟩
      | some r =>
        obtain ⟨before, h, behind, x, y, c, rfl, fresh, joined, part, part', holds, power, same⟩ :=
          places
        exact ⟨g :: before, h, behind, x, y, c, rfl, List.forall_mem_cons.mpr ⟨other, fresh⟩, joined,
          part, part', holds, power, congrArg (g :: ·) same⟩
    rw [joinGroup_cons]
    split
    next alike =>
      refine .bind (ends_termConversion within furnished reads settled own
        (heads g List.mem_cons_self) alike) fun found ⟨joined, stated⟩ => ?_
      cases found with
      | none => exact later fun joins => absurd (joined.mpr joins) nofun
      | some c =>
        obtain ⟨x, y, part, part', holds⟩ := stated c rfl
        refine .bind (.lift (Factor.brings_pow within (settled.sized x y c holds) t.exponent).told)
          fun p ⟨power, _⟩ => .pure ?_
        exact ⟨[], g, rest, x, y, c, rfl, fun _ mem => absurd mem List.not_mem_nil, joined.mp rfl,
          part, part', holds, power, rfl⟩
    next unlike => exact later fun joins => unlike joins.1

/-- Terms are sorted into groups. A statement about the factor, the groups and the terms to come that
each step keeps holds of the result. -/
theorem ends_groupTerms {W : Factor K → List (Group K) → List (Term K) → Prop}
    (opens : ∀ f gs t rest, W f gs (t :: rest) → Places o states t gs none →
      W f (gs ++ [⟨t, t.exponent⟩]) rest)
    (joins : ∀ f gs t rest p joined, W f gs (t :: rest) → Places o states t gs (some (p, joined)) →
      W (f.mul p) joined rest)
    {f : Factor K} (own : good f.value) {gs : List (Group K)}
    (heads : ∀ g ∈ gs, AskedFor o asked g.head) {ts : List (Term K)}
    (terms : ∀ t ∈ ts, AskedFor o asked t) (start : W f gs ts) :
    (groupTerms f gs ts).Ends (Knows o good asked states)
      (fun r => r.2 = placeAll o.Joins gs ts ∧ good r.1.value ∧ W r.1 r.2 []) fault := by
  induction ts generalizing f gs with
  | nil => exact .pure ⟨rfl, own, start⟩
  | cons t rest ih =>
    have first := terms t List.mem_cons_self
    have others := fun u mem => terms u (List.mem_cons_of_mem t mem)
    have next : placeAll o.Joins gs (t :: rest) = placeAll o.Joins (place o.Joins t gs) rest := rfl
    rw [next]
    refine .bind (ends_joinGroup within furnished reads settled first heads) fun found places => ?_
    rw [places.place_eq]
    cases found with
    | none =>
      refine ih own (fun g mem => ?_) others (opens f gs t rest start places)
      rcases List.mem_append.mp mem with old | new
      · exact heads g old
      · exact List.mem_singleton.mp new ▸ first
    | some r =>
      have kept := joins f gs t rest r.1 r.2 start places
      obtain ⟨before, g, behind, x, y, c, rfl, _, _, _, _, holds, power, same⟩ := places
      have size := (Factor.brings_pow within (settled.sized x y c holds) t.exponent).given power
      refine ih (Factor.good_mul within own size) (fun h mem => ?_) others kept
      replace mem : h ∈ r.2 := mem
      rw [same] at mem
      rcases List.mem_append.mp mem with old | inside
      · exact heads h (List.mem_append_left _ old)
      · rcases List.mem_cons.mp inside with rfl | old
        · exact heads g (List.mem_append_right _ List.mem_cons_self)
        · exact heads h (List.mem_append_right _ (List.mem_cons_of_mem _ old))

/-- A unit merges into what the registries say. -/
theorem ends_mergeFactor {W : Factor K → List (Group K) → List (Term K) → Prop}
    (opens : ∀ f gs t rest, W f gs (t :: rest) → Places o states t gs none →
      W f (gs ++ [⟨t, t.exponent⟩]) rest)
    (joins : ∀ f gs t rest p joined, W f gs (t :: rest) → Places o states t gs (some (p, joined)) →
      W (f.mul p) joined rest)
    (terms : ∀ t ∈ u.terms, AskedFor o asked t) (start : W .one [] u.terms) :
    (mergeFactor u).Ends (Knows o good asked states)
      (fun r => (o.merged u = .ok r.2 ∧ good r.1.value) ∧ W r.1 (placeAll o.Joins [] u.terms) [])
      fun e => fault e ∨ o.merged u = .error e := by
  refine .bind ((ends_groupTerms within furnished reads settled opens joins (Factor.good_one within)
    (fun _ mem => absurd mem List.not_mem_nil) terms start).weaken (fun _ own => own) fun _ => .inl)
    fun ⟨f, gs⟩ ⟨same, own, kept⟩ => ?_
  obtain rfl : gs = placeAll o.Joins [] u.terms := same
  dsimp only
  rw [Action.mapM_lift]
  have merges : o.merged u = productOf (placeAll o.Joins [] u.terms) := rfl
  rw [productOf] at merges
  refine .bind (.lift (.of_given (fun _ made => made) fun e failed =>
    .inr (by rw [merges, failed]; rfl))) fun ts made => ?_
  rw [made] at merges
  refine .bind (.lift (.of_given (fun _ product => product) fun e failed =>
    .inr (merges.trans failed))) fun m product => ?_
  exact .pure ⟨⟨merges.trans product, own⟩, kept⟩

end Merging

end Metrology.Session
