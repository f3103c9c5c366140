import Metrology.Proofs.Session.Persistence

/-!
# Conversions as they were given

An added conversion is kept between its units without their prefixes, while a question about them
merges their terms first. Where merging combines terms of one unit only, both come to the same symbols,
and the prefixes that were divided out are multiplied in again: the factor that was given comes back,
with its error.
-/
namespace Metrology.Session

variable {K : Type} [Field K] [LinearOrder K] [Scalar K]

/-! ### What prefixes make of units -/

/-- The number that a unit is multiplied by, its prefix. -/
def prefixSize : NamedUnit K → Option (Prefix K) → K := scaledSize fun _ => 1

section Prefixes

variable [IsStrictOrderedRing K] [Scalar.Exact K] {lex : Lexicon K}
  (prefixes : ∀ p ∈ lex.prefixes.all, p.multiplier ≠ 0) {u v : Compound K}

omit [IsStrictOrderedRing K] in
theorem prefixSize_none (w : NamedUnit K) : prefixSize w none = 1 := scaledSize_none (fun _ => 1) w

omit [IsStrictOrderedRing K] in
theorem valueOf_of_multiplier {m : K} (scaled : ∀ t ∈ u.terms, t.scalingMultiplier ≠ 0)
    (given : u.multiplier = .ok m) : Compound.valueOf prefixSize u.terms = m :=
  Compound.valueOf_of_multiplier scaled given

include prefixes

theorem prefixSize_ne_zero {w : NamedUnit K} {p : Option (Prefix K)} (names : lex.Names w p) :
    prefixSize w p ≠ 0 := by
  rw [prefixSize, scaledSize, mul_one]
  exact Lexicon.scalingMultiplier_ne_zero prefixes names

theorem scaled_of_sound (sound : u.Sound lex.Names) : ∀ t ∈ u.terms, t.scalingMultiplier ≠ 0 :=
  fun t mem => Lexicon.scalingMultiplier_ne_zero prefixes (sound.terms t mem).1.base

omit [IsStrictOrderedRing K] prefixes in
/-- A unit without prefixes keeps its terms and is not scaled. -/
theorem withoutPrefixes_of_plain (sound : u.Sound lex.Names) (plain : u.hasPrefixes = false) :
    u.withoutPrefixes = .ok u ∧ Compound.valueOf prefixSize u.terms = 1 := by
  have scaling (t : Term K) (mem : t ∈ u.terms) : t.scaling = none :=
    ((sound.bare plain).terms t mem).1.base.2
  have same : u.terms.map (fun t => (⟨t.unit, none, t.exponent⟩ : Term K)) = u.terms := by
    refine (List.map_congr_left fun t mem => ?_).trans (List.map_id _)
    rw [← scaling t mem]
    rfl
  refine ⟨bind_eq_ok.mpr ⟨u.terms, ?_, sound.ofTerms_terms⟩, List.prod_eq_one fun x mem => ?_⟩
  · rw [Compound.mapM_withoutPrefix sound, same]
  · obtain ⟨t, inside, rfl⟩ := List.mem_map.mp mem
    rw [scaling t inside, prefixSize_none, one_zpow]

/-- An edge is kept between the units without prefixes, by which its factor is scaled. -/
theorem kept_of_unprefixed {d : Dimension} {f : Factor K} {c : Conversion K} (sound : u.Sound lex.Names)
    (sound' : v.Sound lex.Names) (made : EdgeStore.unprefixed d u v f = .ok c) :
    ∃ x y, u.withoutPrefixes = .ok x ∧ v.withoutPrefixes = .ok y ∧ c.src = x.write .ascii ∧
      c.dest = y.write .ascii ∧ c.factor.error = f.error ∧
      c.factor.value * Compound.valueOf prefixSize u.terms =
        f.value * Compound.valueOf prefixSize v.terms := by
  unfold EdgeStore.unprefixed at made
  split at made
  next =>
    obtain ⟨n, isN, made⟩ := bind_eq_ok.mp made
    obtain ⟨m, isM, made⟩ := bind_eq_ok.mp made
    obtain ⟨q, divided, made⟩ := bind_eq_ok.mp made
    obtain ⟨x, bare, made⟩ := bind_eq_ok.mp made
    obtain ⟨y, bare', made⟩ := bind_eq_ok.mp made
    obtain rfl := Except.ok.inj made
    rw [valueOf_of_multiplier (scaled_of_sound prefixes sound) isM,
      valueOf_of_multiplier (scaled_of_sound prefixes sound') isN]
    obtain ⟨nonzero, _⟩ := Factor.value_of_div divided
    rw [Factor.div_eq nonzero, Factor.mul_eq] at divided
    obtain rfl := Except.ok.inj divided
    refine ⟨x, y, bare, bare', rfl, rfl, ?_, div_mul_cancel₀ _ nonzero⟩
    simp [Factor.exact, Scalar.Exact.zero_eq]
  next unscaled =>
    obtain rfl := Except.ok.inj made
    obtain ⟨plain, plain'⟩ : u.hasPrefixes = false ∧ v.hasPrefixes = false := by simpa using unscaled
    obtain ⟨bareU, ones⟩ := withoutPrefixes_of_plain sound plain
    obtain ⟨bareV, ones'⟩ := withoutPrefixes_of_plain sound' plain'
    exact ⟨u, v, bareU, bareV, rfl, rfl, rfl, by rw [ones, ones']⟩

end Prefixes

/-! ### Merging terms of one unit -/

section Unmixed

variable {o : Session K} {u m x : Compound K}

/-- Only terms of one unit join. -/
def Unmixed (o : Session K) (u : Compound K) : Prop :=
  ∀ t ∈ u.terms, ∀ h ∈ u.terms, o.Joins t h → t.unit = h.unit

/-- The group as a pile, without the prefix of its head. -/
def Group.barePile (g : Group K) : Compound.Pile K := ⟨⟨g.head.unit, none, g.head.exponent⟩, g.exponent⟩

omit [Field K] [LinearOrder K] in
/-- Terms are then grouped as they are piled up without their prefixes. -/
theorem piles_bare (sound : u.Sound o.lexicon.Names) (unmixed : o.Unmixed u) :
    Compound.piles u.bare.terms = (placeAll o.Joins [] u.terms).map Group.barePile := by
  have step {t : Term K} (own : t ∈ u.terms) {gs : List (Group K)}
      (heads : ∀ g ∈ gs, g.head ∈ u.terms) :
      Compound.pile ⟨t.unit, none, t.exponent⟩ (gs.map Group.barePile) =
        (place o.Joins t gs).map Group.barePile := by
    induction gs with
    | nil => rfl
    | cons g rest ih =>
      have head := heads g List.mem_cons_self
      have later := ih fun h mem => heads h (List.mem_cons_of_mem _ mem)
      have names := (sound.terms t own).1
      have names' := (sound.terms g.head head).1
      rw [List.map_cons, Compound.pile, place]
      by_cases joined : o.Joins t g.head
      · have same := unmixed t own g.head head joined
        rw [if_pos joined, if_pos (by simp [Term.sameBase, Group.barePile, Term.scalingSymbol, same])]
        rfl
      · have other : (Group.barePile g).head.sameBase ⟨t.unit, none, t.exponent⟩ = false := by
          refine Bool.eq_false_iff.mpr fun same => joined (joins_of_unit names names' ?_)
          exact (o.lexicon.identifiesUnits _ _ names'.base.withoutPrefix names.base.withoutPrefix
            same).symm
        rw [if_neg joined, other, if_neg Bool.false_ne_true, later, List.map_cons]
  have run (ts : List (Term K)) (part : ∀ t ∈ ts, t ∈ u.terms) (gs : List (Group K))
      (heads : ∀ g ∈ gs, g.head ∈ u.terms) :
      (ts.map fun t => (⟨t.unit, none, t.exponent⟩ : Term K)).foldl (fun ps t => Compound.pile t ps)
        (gs.map Group.barePile) = (placeAll o.Joins gs ts).map Group.barePile := by
    induction ts generalizing gs with
    | nil => rfl
    | cons t rest ih =>
      have own := part t List.mem_cons_self
      rw [List.map_cons, List.foldl_cons, step own heads]
      refine ih (fun r mem => part r (List.mem_cons_of_mem _ mem)) _ fun g mem => ?_
      rcases mem_place mem with opened | ⟨h, inside, opened⟩
      · exact opened ▸ own
      · exact opened ▸ heads h inside
  have visible : u.bare.terms.filter (fun t => !t.isScalar) = u.bare.terms := by
    refine List.filter_eq_self.mpr fun t mem => ?_
    obtain ⟨r, inside, rfl⟩ := List.mem_map.mp mem
    have shown : r.unit.isScalar = false := (sound.terms r inside).2
    simp [Term.isScalar, shown]
  rw [Compound.piles, visible]
  exact run u.terms (fun _ mem => mem) [] (by simp)

omit [Field K] [LinearOrder K] in
/-- Such a unit merges into what it is without prefixes, but for prefixes. -/
theorem bare_of_merged (sound : u.Sound o.lexicon.Names) (unmixed : o.Unmixed u)
    (merges : o.merged u = .ok m) (plain : u.withoutPrefixes = .ok x) : m.bare = x := by
  obtain ⟨ts, all, product⟩ := bind_eq_ok.mp plain
  obtain rfl := Except.ok.inj ((Compound.mapM_withoutPrefix sound).symm.trans all)
  obtain ⟨us, leveled, rfl⟩ := map_eq_ok.mp product
  have piles := piles_bare sound unmixed
  rw [Compound.bare] at piles
  rw [piles] at leveled
  rw [Compound.terms_of_level leveled, Compound.bare, (terms_of_merged sound merges).1]
  rw [List.filter_map, List.map_map, List.map_map]
  rfl

end Unmixed

/-! ### What merging takes out -/

section Merging

variable [IsStrictOrderedRing K] [Scalar.Exact K] {o : Session K} {u v x y : Compound K}
  {asked : Compound K → Prop} {d : Dimension}

/-- A factor between two prefixes of one unit is the quotient of the prefixes, without an error. -/
def Rescales (x y : Compound K) (c : Conversion K) : Prop :=
  c.factor.value ≠ 0 ∧ ∀ w p q, x = ⟨[⟨w, p, 1⟩]⟩ → y = ⟨[⟨w, q, 1⟩]⟩ →
    c.factor = ⟨prefixSize w p / prefixSize w q, 0⟩

/-- Registered numbers are not zero. -/
theorem NonZero.furnished (nonzero : o.NonZero) : o.Furnished (· ≠ 0) where
  indexed := nonzero.lexicon.indexed
  prefixes := nonzero.lexicon.prefixes
  units := nonzero.lexicon.units
  edges d es registered key c edge := by
    have drawn := nonzero.drawn registered
    obtain ⟨src, dest⟩ := drawn.keyed key c edge
    exact ⟨src, dest, drawn.nonzero key c edge⟩

/-- Conversions between terms of one unit rescale it by the prefixes. -/
theorem settled_rescales (nonzero : o.NonZero) (apart : ToldApart o.lexicon asked) :
    Settled o (· ≠ 0) asked Rescales where
  apart := apart
  sized _ _ _ own := own.1
  single t h x y c own other part part' := by
    rintro ⟨size, src, dest, q, same, rfl, rfl, ratio, compared, alike, unlike⟩
    refine ⟨size, fun w p r isX isY => ?_⟩
    have asks : asked x := let ⟨_, made, single⟩ := part; own.2 _ _ made single
    have asks' : asked y := let ⟨_, made, single⟩ := part'; other.2 _ _ made single
    have names (z : Compound K) {r : Option (Prefix K)} (asks : asked z) (shape : z = ⟨[⟨w, r, 1⟩]⟩) :
        o.lexicon.Names w r := ((apart.sound z asks).terms ⟨w, r, 1⟩ (by simp [shape])).1.base
    have scales (z : Compound K) {r : Option (Prefix K)} (asks : asked z) (shape : z = ⟨[⟨w, r, 1⟩]⟩) :
        prefixSize w r ≠ 0 := prefixSize_ne_zero nonzero.lexicon.prefixes (names z asks shape)
    have one : (Factor.one : Factor K).value ≠ 0 := by simp
    rw [Factor.div_eq one, Factor.one_eq] at ratio
    obtain rfl := Except.ok.inj ratio
    cases same with
    | true =>
      obtain rfl := apart.distinct x y asks asks' (write_eq_of_same compared)
      obtain ⟨rfl⟩ : p = r := by simpa using isX.symm.trans isY
      rw [alike rfl, div_self (scales x asks isX)]
      simp
    | false =>
      have single (z : Compound K) {r : Option (Prefix K)} (asks : asked z)
          (shape : z = ⟨[⟨w, r, 1⟩]⟩) : z.withoutPrefixes = .ok ⟨[⟨w, none, 1⟩]⟩ := by
        have bare := Compound.withoutPrefixes_of_units (apart.sound z asks) (by simp [shape])
        rw [bare, shape]
        rfl
      have size (z : Compound K) {r : Option (Prefix K)} {m : K} (asks : asked z)
          (shape : z = ⟨[⟨w, r, 1⟩]⟩) (given : z.multiplier = .ok m) : m = prefixSize w r := by
        rw [← valueOf_of_multiplier (scaled_of_sound nonzero.lexicon.prefixes (apart.sound z asks)) given,
          shape]
        simp
      obtain ⟨_, m, n, q, way, _, isM, isN, scaled, tells, same⟩ :=
        unlike rfl _ _ (single x asks isX) (single y asks' isY) (.inl rfl)
      obtain rfl := size x asks isX isM
      obtain rfl := size y asks' isY isN
      rw [Factor.div_eq (scales y asks' isY), Factor.mul_eq] at scaled
      obtain rfl := Except.ok.inj scaled
      rw [same, tells.same rfl way rfl, Factor.one_eq, Factor.mul_eq]
      simp [Factor.exact, Scalar.Exact.zero_eq]

/-- What a factor and groups leave of a unit, with the terms that are still to come. -/
structure Weighs (u : Compound K) (f : Factor K) (gs : List (Group K)) (rest : List (Term K)) :
    Prop where
  exact : f.error = 0
  total : f.value * valueOfGroups prefixSize gs * Compound.valueOf prefixSize rest =
    Compound.valueOf prefixSize u.terms
  heads : ∀ g ∈ gs, g.head ∈ u.terms
  terms : ∀ t ∈ rest, t ∈ u.terms

omit [IsStrictOrderedRing K] in
theorem error_of_pow {f p : Factor K} {n : Int} (exact : f.error = 0) (given : f.pow n = .ok p) :
    p.error = 0 := by
  unfold Factor.pow at given
  split at given
  next => rw [← Except.ok.inj given, Factor.one_eq]
  next =>
    obtain ⟨x, _, rfl⟩ := map_eq_ok.mp given
    rw [exact, Scalar.Exact.mul_eq, zero_mul]

omit [LinearOrder K] [Scalar K] [IsStrictOrderedRing K] [Scalar.Exact K] in
/-- The terms that groups leave have the value of the groups. -/
theorem valueOf_left {value : NamedUnit K → Option (Prefix K) → K} (gs : List (Group K)) :
    Compound.valueOf value ((gs.filter fun g => g.exponent ≠ 0).map
      fun g => ⟨g.head.unit, g.head.scaling, g.exponent⟩) = valueOfGroups value gs := by
  induction gs with
  | nil => rfl
  | cons g rest ih =>
    rw [valueOfGroups_cons, ← ih, List.filter_cons]
    split
    next => simp
    next cancels =>
      have zero : g.exponent = 0 := by simpa using cancels
      rw [zero, zpow_zero, one_mul]

omit [LinearOrder K] [IsStrictOrderedRing K] [Scalar.Exact K] in
/-- A term opens a group of its own. -/
theorem Weighs.opens {f : Factor K} {gs : List (Group K)} {t : Term K} {rest : List (Term K)}
    (weighs : Weighs u f gs (t :: rest)) : Weighs u f (gs ++ [⟨t, t.exponent⟩]) rest where
  exact := weighs.exact
  total := by
    rw [← weighs.total, Compound.valueOf_cons, valueOfGroups_append]
    simp [mul_assoc]
  heads g mem := by
    rcases List.mem_append.mp mem with old | new
    · exact weighs.heads g old
    · exact List.mem_singleton.mp new ▸ weighs.terms t List.mem_cons_self
  terms r mem := weighs.terms r (List.mem_cons_of_mem _ mem)

omit [IsStrictOrderedRing K] in
/-- A term is placed by the power of a factor between its prefix and that of the head. -/
theorem Weighs.joins {f p : Factor K} {before behind : List (Group K)} {g : Group K} {t : Term K}
    {rest : List (Term K)} (weighs : Weighs u f (before ++ g :: behind) (t :: rest))
    (same : t.unit = g.head.unit) (nonzero : prefixSize g.head.unit g.head.scaling ≠ 0)
    (exact : p.error = 0)
    (value : p.value = (prefixSize t.unit t.scaling / prefixSize g.head.unit g.head.scaling) ^ t.exponent) :
    Weighs u (f.mul p) (before ++ ⟨g.head, g.exponent + t.exponent⟩ :: behind) rest where
  exact := by rw [Factor.mul_eq, weighs.exact, exact, add_zero]
  total := by
    rw [← weighs.total, Factor.value_mul, value, div_zpow]
    simp only [valueOfGroups_append, valueOfGroups_cons, Compound.valueOf_cons, same]
    rw [zpow_add₀ nonzero]
    field_simp
  heads h mem := by
    simp only [List.mem_append, List.mem_cons] at mem
    rcases mem with old | rfl | old
    · exact weighs.heads h (by simp [old])
    · exact weighs.heads g (by simp)
    · exact weighs.heads h (by simp [old])
  terms r mem := weighs.terms r (List.mem_cons_of_mem _ mem)

/-- Merging a unit of which only terms of one unit join takes out the prefixes that it loses. -/
theorem ends_mergeUnmixed (nonzero : o.NonZero) (apart : ToldApart o.lexicon asked)
    (sound : u.Sound o.lexicon.Names) (parts : ∀ c, u.HasPart c → asked c) (unmixed : o.Unmixed u) :
    (mergeFactor u).Ends (Knows o (· ≠ 0) asked Rescales)
      (fun r => (o.merged u = .ok r.2 ∧ r.1.value ≠ 0) ∧ r.1.error = 0 ∧
        r.1.value * Compound.valueOf prefixSize r.2.terms = Compound.valueOf prefixSize u.terms)
      fun _ => True := by
  have within : Scalar.Within (fun x : K => x ≠ 0) fun _ => True := .weaken .exact fun _ => False.elim
  have scales (t : Term K) (mem : t ∈ u.terms) : prefixSize t.unit t.scaling ≠ 0 :=
    prefixSize_ne_zero nonzero.lexicon.prefixes (sound.terms t mem).1.base
  refine (ends_mergeFactor within nonzero.furnished (.inl fun _ => trivial)
    (settled_rescales nonzero apart) (W := Weighs u) ?_ ?_ (fun t mem => ?_) ?_).weaken
      (fun r ⟨⟨merges, size⟩, weighs⟩ => ⟨⟨merges, size⟩, weighs.exact, ?_⟩) fun _ _ => trivial
  · exact fun f gs t rest weighs _ => weighs.opens
  · intro f gs t rest p joined weighs places
    obtain ⟨before, g, behind, x, y, c, rfl, _, joins, part, part', rescales, power, rfl⟩ := places
    have own := weighs.terms t List.mem_cons_self
    have head := weighs.heads g (by simp)
    have same := unmixed t own g.head head joins
    have shape {r : Term K} (mem : r ∈ u.terms) {z : Compound K} (part : IsPart r z) :
        z = ⟨[⟨r.unit, r.scaling, 1⟩]⟩ := by
      obtain ⟨_, made, single⟩ := part
      obtain ⟨_, made', single', scalar | visible⟩ := exists_part (sound.terms r mem).1
      · rw [(sound.terms r mem).2] at scalar
        cases scalar.1
      · obtain rfl := Except.ok.inj (made.symm.trans made')
        exact (Except.ok.inj (single.symm.trans single')).trans visible.2
    have factor := rescales.2 t.unit t.scaling g.head.scaling (shape own part)
      (by rw [shape head part', same])
    have value := Factor.value_of_pow power
    rw [factor] at value
    exact weighs.joins same (scales g.head head) (error_of_pow (by rw [factor]) power) value
  · exact ⟨(sound.terms t mem).1, fun v c made single => parts c ⟨t, mem, v, made, single⟩⟩
  · exact ⟨by rw [Factor.one_eq], by simp, by simp, fun _ mem => mem⟩
  · have total := weighs.total
    rw [Compound.valueOf_nil, mul_one] at total
    rw [(terms_of_merged sound merges).1, valueOf_left, total]

/-! ### The edge that is used -/

omit [Field K] [LinearOrder K] [IsStrictOrderedRing K] [Scalar.Exact K] in
/-- Where nothing is remembered, a conversion is computed. -/
theorem computed_of_conversion (forgotten : o.Forgotten) {src dest : UnitRef K}
    {found : Option (Conversion K)} (given : ((conversion src dest).apply o).1 = .ok found) :
    ∃ u v d, o.lexicon.deref src = .ok u ∧ u.dimension = .ok d ∧ o.lexicon.deref dest = .ok v ∧
      ((compute mergeFactor d u v).apply o).1 = .ok found := by
  rw [conversion, Action.apply_bind, parse, Action.apply_bind, Action.apply_get] at given
  dsimp only at given
  rw [Action.apply_lift] at given
  cases meant : o.lexicon.deref src with
  | error e => rw [meant] at given; cases given
  | ok u =>
    rw [meant] at given
    dsimp only at given
    rw [Action.apply_bind, Action.apply_lift] at given
    cases dimension : u.dimension with
    | error e => rw [dimension] at given; cases given
    | ok d =>
      rw [dimension] at given
      dsimp only at given
      rw [conversionIn, answer_apply] at given
      have passes : ((validate d (.compound u)).apply o).1 = .ok u := validate_eq_ok.mpr ⟨rfl, dimension⟩
      rw [passes] at given
      dsimp only at given
      cases passes' : ((validate d dest).apply o).1 with
      | error e => rw [passes'] at given; cases given
      | ok v =>
        rw [passes'] at given
        dsimp only at given
        have blank : (o.chart d).answers.get? (u.write .ascii, v.write .ascii) = none := by
          simp [forgotten.chart, Chart.blank]
        rw [blank] at given
        dsimp only at given
        refine ⟨u, v, d, rfl, dimension, (validate_eq_ok.mp passes').1, ?_⟩
        rcases run : (compute mergeFactor d u v).apply o with ⟨_ | _, t⟩
        · rw [run] at given
          cases given
        · rw [run] at given
          exact given

/-- An edge between two units without their prefixes tells how they convert, by their prefixes. -/
theorem factor_of_edge (nonzero : o.NonZero) (forgotten : o.Forgotten) (tabled : o.lexicon.Tabled)
    (sound : u.Sound o.lexicon.Names) (sound' : v.Sound o.lexicon.Names) (unmixed : o.Unmixed u)
    (unmixed' : o.Unmixed v) (bare : u.withoutPrefixes = .ok x) (bare' : v.withoutPrefixes = .ok y)
    (differ : x.write .ascii ≠ y.write .ascii) {es : Edges K}
    (registered : EdgeStore.current o.lexicon o.store d = .ok es) {c : Conversion K}
    (edge : es.get? (x.write .ascii, y.write .ascii) = some c) {found : Option (Conversion K)}
    (given : ((compute mergeFactor d u v).apply o).1 = .ok found) :
    ∃ c', found = some c' ∧ c'.factor.error = c.factor.error ∧
      c'.factor.value * Compound.valueOf prefixSize v.terms =
        c.factor.value * Compound.valueOf prefixSize u.terms := by
  have within : Scalar.Within (fun x : K => x ≠ 0) fun _ => True := .weaken .exact fun _ => False.elim
  have told : ToldApart o.lexicon fun c => u.HasPart c ∨ v.HasPart c :=
    toldApart_of_reordered tabled fun c part => part.elim
      (fun part => ⟨sound_of_hasPart sound part, reordered_of_hasPart part⟩)
      fun part => ⟨sound_of_hasPart sound' part, reordered_of_hasPart part⟩
  have merging := ends_mergeUnmixed nonzero told sound (fun _ => .inl) unmixed
  have merging' := ends_mergeUnmixed nonzero told sound' (fun _ => .inr) unmixed'
  have computes := ends_compute (d := d) within nonzero.furnished (.inl fun _ => trivial) sound sound'
    (merging.weaken (fun _ own => ⟨own.1, own⟩) fun _ _ => .inl trivial)
    (merging'.weaken (fun _ own => ⟨own.1, own⟩) fun _ _ => .inl trivial)
  obtain ⟨decides, all⟩ := (computes.outcome forgotten.knows).given given
  obtain ⟨m, n, merges, merges', isSome⟩ := decides
  have tidy := (terms_of_merged sound merges).2
  have tidy' := (terms_of_merged sound' merges').2
  have plain : m.bare = x := bare_of_merged sound unmixed merges bare
  have plain' : n.bare = y := bare_of_merged sound' unmixed' merges' bare'
  have coupled : o.Coupled d (x.write .ascii) (y.write .ascii) :=
    .inr ⟨es, registered, .single (.inl (by rw [Network.edge?]; exact Option.isSome_of_eq_some edge))⟩
  have tied : o.Tied d m n := (tied_iff tidy tidy').mpr (.inr (.inl (by rwa [plain, plain'])))
  obtain ⟨c', rfl⟩ := Option.isSome_iff_exists.mp (isSome.mpr tied)
  obtain ⟨_, left, right, q, same, ⟨⟨isM, _⟩, exactU, sizeU⟩, ⟨⟨isN, up⟩, exactV, sizeV⟩, ratio,
    compared, _, along⟩ := all c' rfl
  obtain rfl := Except.ok.inj (merges.symm.trans isM)
  obtain rfl := Except.ok.inj (merges'.symm.trans isN)
  have unlike : same = false := by
    refine Bool.eq_false_iff.mpr fun alike => differ ?_
    have read := tabled.parse_write .ascii tidy.sound
    rw [write_eq_of_same (alike ▸ compared), tabled.parse_write .ascii tidy'.sound] at read
    rw [← plain, ← plain', Compound.write_bare_of_reordered (Except.ok.inj read)]
  obtain ⟨es', p, r, q', way, registered', isP, isR, scaled, tells, same⟩ :=
    along unlike x y (plain ▸ tidy.withoutPrefixes) (plain' ▸ tidy'.withoutPrefixes) coupled
  obtain rfl := Except.ok.inj (registered.symm.trans registered')
  obtain rfl := Option.some.inj (tells.edge differ c edge)
  have prefixes := nonzero.lexicon.prefixes
  rw [valueOf_of_multiplier (scaled_of_sound prefixes tidy.sound) isP] at sizeU
  rw [valueOf_of_multiplier (scaled_of_sound prefixes tidy'.sound) isR] at sizeV
  rw [Factor.div_eq up] at ratio
  obtain rfl := Except.ok.inj ratio
  obtain ⟨nonzeroR, _⟩ := Factor.value_of_div scaled
  rw [Factor.div_eq nonzeroR, Factor.mul_eq] at scaled
  obtain rfl := Except.ok.inj scaled
  refine ⟨c', rfl, ?_, ?_⟩
  · rw [same, Factor.mul_eq]
    simp [exactU, exactV, Factor.exact, Scalar.Exact.zero_eq]
  · have divisor : r ≠ 0 := nonzeroR
    rw [same, Factor.mul_eq, ← sizeU, ← sizeV]
    simp only [Factor.value_exact]
    field_simp

end Merging

/-! ### Added conversions -/

variable [IsStrictOrderedRing K] [Scalar.Exact K] {s : Session K}

theorem NonZero.after (nonzero : s.NonZero) (events : List (Event K)) :
    (Session.after events s).NonZero := by
  induction events generalizing s with
  | nil => exact nonzero
  | cons e rest ih => exact ih (nonzero.event e)

/-- **An added conversion takes effect.** A session is made from any systems, conversions are added to
it and taken out and it is asked questions, in any order, and some may fail. Then a conversion is added
between two units whose symbols differ without their prefixes. If only terms of one unit convert to one
another within each of the two, what is found between them right after it is the factor that was given,
with its relative error. -/
theorem added_conversion_honoured {systems : List MeasurementSystem} (made : ofSystems systems = .ok s)
    {events : List (Event K)} {src dest : String} {factor : Factor K}
    (added : (adding src dest factor).isMade (after events s) = true)
    (differ : ∀ u v x y, s.lexicon.parse src = .ok u → s.lexicon.parse dest = .ok v →
      u.withoutPrefixes = .ok x → v.withoutPrefixes = .ok y → x.write .ascii ≠ y.write .ascii)
    (unmixed : ∀ text ∈ [src, dest], ∀ u, s.lexicon.parse text = .ok u →
      ((adding src dest factor).after (after events s)).Unmixed u)
    {found : Option (Conversion K)}
    (given : reply [] (.symbol src) (.symbol dest) ((adding src dest factor).after (after events s)) =
      .ok found) :
    ∃ c, found = some c ∧ c.factor = factor := by
  obtain ⟨u, v, d, es, c, read, read', own, _, unprefixed, _, lexicon, edges⟩ := exists_added added
  have forgotten := Deed.forgotten added
  have nonzero := ((nonZero_ofSystems made).after events).event (.addConversion src dest factor)
  rw [← deed_after, Event.deed] at nonzero
  have registered := (edges d).trans (if_pos rfl)
  rw [lexicon_after] at read read' lexicon registered
  rw [← lexicon] at registered
  have tabled := tabled_ofSystems made
  have sound := tabled.sound_of_parse read
  have sound' := tabled.sound_of_parse read'
  have prefixes := (nonZero_ofSystems made).lexicon.prefixes
  obtain ⟨x, y, bare, bare', ends, ends', error, value⟩ :=
    kept_of_unprefixed prefixes sound sound' unprefixed
  obtain ⟨u', v', d', meant, dimension, meant', computed⟩ := computed_of_conversion forgotten given
  rw [lexicon] at meant meant'
  obtain rfl := Except.ok.inj (read.symm.trans meant)
  obtain rfl := Except.ok.inj (read'.symm.trans meant')
  obtain rfl := Except.ok.inj (own.symm.trans dimension)
  obtain ⟨c', found, error', value'⟩ := factor_of_edge nonzero forgotten (lexicon ▸ tabled)
    (lexicon ▸ sound) (lexicon ▸ sound') (unmixed src (by simp) u read)
    (unmixed dest (by simp) v read') bare bare' (differ u v x y read read' bare bare') registered
    (by rw [ends, ends', Register.get?_put_self]) computed
  refine ⟨c', found, ?_⟩
  have size : Compound.valueOf prefixSize v.terms ≠ 0 :=
    Compound.valueOf_ne_zero (fun _ _ => prefixSize_ne_zero prefixes)
      fun t mem => (sound'.terms t mem).1
  have same : c'.factor.value = factor.value := mul_right_cancel₀ size (value'.trans value)
  calc c'.factor = ⟨c'.factor.value, c'.factor.error⟩ := rfl
    _ = ⟨factor.value, factor.error⟩ := by rw [same, error', error]

omit [Field K] [LinearOrder K] [IsStrictOrderedRing K] [Scalar.Exact K] in
/-- Terms do not join between which no conversion is found. -/
theorem unmixed_of_terms {o : Session K} {u : Compound K} (orderly : o.Orderly) (forgotten : o.Forgotten)
    (tabled : o.lexicon.Tabled) (sound : u.Sound o.lexicon.Names)
    (apart : ∀ t ∈ u.terms, ∀ h ∈ u.terms, t.unit = h.unit ∨
      ((termConversion t h).apply o).1 = .ok none) : o.Unmixed u := by
  have told : ToldApart o.lexicon u.HasPart := toldApart_of_reordered tabled fun c part =>
    ⟨sound_of_hasPart sound part, reordered_of_hasPart part⟩
  have asks (t : Term K) (mem : t ∈ u.terms) : AskedFor o u.HasPart t :=
    ⟨(sound.terms t mem).1, fun v c made single => ⟨t, mem, v, made, single⟩⟩
  intro t own h head joined
  refine (apart t own h head).resolve_right fun none => ?_
  have ends : (termConversion t h).Ends (Knows o (fun _ => True) u.HasPart (Sized fun _ => True)) _
      fun _ => True := ends_termConversion .lax orderly.furnished (.inl fun _ => trivial)
    (settled_sized told) (asks t own) (asks h head) joined.1
  exact absurd (((ends.outcome forgotten.knows).given none).1.mpr joined) nofun

/-- An area of pixels by points is stated in picas. -/
def tiling : Deed ℚ := adding "px*p" "P2" ⟨1/192, 0⟩

/-- The symbol without prefixes. -/
def bareSymbol (lex : Lexicon ℚ) (text : String) : Except Error String := do
  return (← (← lex.parse text).withoutPrefixes).write .ascii

/-- It is as it was stated, as long as pixels and points are not related. -/
theorem tiling_honoured :
    tiling.isMade (after [] typographer) = true ∧
      (∀ text ∈ ["px*p", "P2"], bareSymbol typographer.lexicon text = .ok text) ∧
      ∃ c, reply [] (.symbol "px*p") (.symbol "P2") (tiling.after (after [] typographer)) =
        .ok (some c) ∧ c.factor = ⟨1/192, 0⟩ := by
  have run : tiling.isMade (after [] typographer) = true ∧
      (∀ text ∈ ["px*p", "P2"], bareSymbol typographer.lexicon text = .ok text) ∧
      reply [] (.symbol "px*p") (.symbol "P2") (tiling.after (after [] typographer)) =
        .ok (some ⟨"L2", "px*p", "P2", ⟨1/192, 0⟩⟩) ∧
      ∀ text ∈ ["px*p", "P2"], (typographer.lexicon.parse text).toOption.all fun u =>
        u.terms.all fun t => u.terms.all fun h => t.unit = h.unit ∨
          ((termConversion t h).apply (tiling.after (after [] typographer))).1 = .ok none := by
    decide +kernel
  obtain ⟨added, symbols, given, terms⟩ := run
  have written {text : String} (listed : text ∈ ["px*p", "P2"]) {u x : Compound ℚ}
      (read : typographer.lexicon.parse text = .ok u) (bare : u.withoutPrefixes = .ok x) :
      x.write .ascii = text := by
    have symbol := symbols text listed
    simpa [bareSymbol, read, bare, bind, Except.bind, pure, Except.pure] using symbol
  have lexicon : (tiling.after (after [] typographer)).lexicon = typographer.lexicon :=
    (extends_adding added).lexicon.trans (lexicon_after [] typographer)
  have tabled := tabled_ofSystems ofSystems_typographer
  have orderly := (orderly_ofSystems ofSystems_typographer).perform
    (([] : List (Event ℚ)).map Event.deed)
  rw [perform_deeds] at orderly
  have unmixed : ∀ text ∈ ["px*p", "P2"], ∀ u, typographer.lexicon.parse text = .ok u →
      (tiling.after (after [] typographer)).Unmixed u := by
    intro text listed u read
    have apart := terms text listed
    rw [read] at apart
    refine unmixed_of_terms (orderly.deed tiling) (Deed.forgotten added) (by rw [lexicon]; exact tabled)
      (by rw [lexicon]; exact tabled.sound_of_parse read) fun t own h head => ?_
    simpa using List.all_eq_true.mp (List.all_eq_true.mp apart t own) h head
  obtain ⟨c, found, same⟩ := added_conversion_honoured ofSystems_typographer added
    (fun u v x y read read' bare bare' alike => by
      rw [written (by simp) read bare, written (by simp) read' bare'] at alike
      exact absurd alike (by decide))
    unmixed given
  exact ⟨added, symbols, c, given.trans (congrArg Except.ok found), same⟩

/-- Where pixels and points are related another factor is found: they are merged first, and the area of
pixels alone is known. -/
theorem tiling_not_honoured :
    areas = after [.addConversion "px" "p" ⟨3/4, 0⟩, .addConversion "px2" "P2" ⟨1/256, 0⟩] typographer ∧
      (adding "px*p" "P2" ⟨1/100, 0⟩).isMade areas = true ∧
      (∀ text ∈ ["px*p", "P2"], bareSymbol areas.lexicon text = .ok text) ∧
      reply [] (.symbol "px*p") (.symbol "P2") ((adding "px*p" "P2" ⟨1/100, 0⟩).after areas) =
        .ok (some ⟨"L2", "px*p", "P2", ⟨1/192, 0⟩⟩) := by
  refine ⟨?_, by decide +kernel⟩
  rw [areas, related, ← operated_events]
  rfl

end Metrology.Session
