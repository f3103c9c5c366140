import Metrology.Proofs.Session.NormalForm
import Metrology.Proofs.Session.Recent

/-!
# A unit and itself

A unit converts to itself by the quotient of the factor that merging it gives and that factor again.
Merging compares the terms of a unit by conversions that are searched for, so its factor is not the
same at all times. But it is the same twice in a row, since those conversions are remembered, and as
long as they are, the quotient that is remembered beside them is the right one.
-/
namespace Metrology.Session

variable {K : Type}

/-! ### Replay -/

section
variable {α β : Type} {s t : Session K}

/-- From some of what the session remembers, the action gives this again and leaves the session as it
is. -/
def Replays (a : Action (Session K) α) (x : α) (s : Session K) : Prop :=
  ∃ facts : List (Dimension × EdgeKey × Option (Conversion K)),
    (∀ fact ∈ facts, Remembered fact.1 fact.2.1 fact.2.2 s) ∧
    ∀ t, (∀ fact ∈ facts, Remembered fact.1 fact.2.1 fact.2.2 t) → a.apply t = (.ok x, t)

theorem Replays.run {a : Action (Session K) α} {x : α} (replays : Replays a x s) :
    a.apply s = (.ok x, s) := by
  obtain ⟨_, known, again⟩ := replays
  exact again s known

theorem Replays.mono {a : Action (Session K) α} {x : α} (replays : Replays a x s)
    (later : ∀ d key found, Remembered d key found s → Remembered d key found t) :
    Replays a x t := by
  obtain ⟨facts, known, again⟩ := replays
  exact ⟨facts, fun fact mem => later _ _ _ (known fact mem), again⟩

/-- Once the action gave something, it gives the same again, by what it left remembered. -/
structure Replayable (a : Action (Session K) α) : Prop where
  keeps : ∀ d key found, a.Keeps (Remembered d key found) fun _ => True
  replays : ∀ s x t, a.apply s = (.ok x, t) → Replays a x t

theorem replayable_lift (r : Except Error α) :
    Replayable (liftM r : Action (Session K) α) where
  keeps _ _ _ := .lift fun _ _ => trivial
  replays s y t run := by
    obtain ⟨rfl, rfl⟩ := Prod.mk.inj run
    exact ⟨[], fun _ mem => absurd mem List.not_mem_nil, fun _ _ => rfl⟩

theorem replayable_pure (x : α) : Replayable (pure x : Action (Session K) α) :=
  replayable_lift (.ok x)

theorem Replayable.bind {a : Action (Session K) α} {f : α → Action (Session K) β}
    (first : Replayable a) (second : ∀ x, Replayable (f x)) : Replayable (a >>= f) where
  keeps d key found := .bind (first.keeps d key found) fun x _ => (second x).keeps d key found
  replays s y t run := by
    obtain ⟨x, mid, ran, ran'⟩ := Action.bind_apply_eq_ok.mp run
    obtain ⟨facts, known, again⟩ := first.replays s x mid ran
    obtain ⟨facts', known', again'⟩ := (second x).replays mid y t ran'
    refine ⟨facts ++ facts', fun fact mem => ?_, fun s isKnown => ?_⟩
    · rcases List.mem_append.mp mem with early | late
      · have kept := ((second x).keeps _ _ _).invariant (known fact early)
        rwa [ran'] at kept
      · exact known' fact late
    · have once := again s fun fact mem => isKnown fact (List.mem_append_left _ mem)
      have twice := again' s fun fact mem => isKnown fact (List.mem_append_right _ mem)
      exact Action.bind_apply_eq_ok.mpr ⟨x, s, once, twice⟩

end

variable [Scalar K]

/-- What two terms mean does not depend on the session. -/
theorem replayable_conversionIn (d : Dimension) (v w : Term K) :
    Replayable (conversionIn d (.term v) (.term w)) where
  keeps e key found := (keptByLookups_remembered e key found).conversionIn d _ _
  replays s found t run := by
    obtain ⟨x, y, passes, passes', known⟩ := remembered_of_conversionIn run
    obtain ⟨meant, dimension⟩ := validate_eq_ok.mp passes
    obtain ⟨meant', dimension'⟩ := validate_eq_ok.mp passes'
    refine ⟨[(d, (x.write .ascii, y.write .ascii), found)], by simpa using known, fun s isKnown => ?_⟩
    exact conversionIn_of_remembered (validate_eq_ok.mpr ⟨meant, dimension⟩)
      (validate_eq_ok.mpr ⟨meant', dimension'⟩) (isKnown _ List.mem_cons_self)

theorem replayable_termConversion (t h : Term K) : Replayable (termConversion t h) := by
  rw [termConversion_eq]
  exact (replayable_lift _).bind fun v => (replayable_lift _).bind fun w =>
    replayable_conversionIn _ v w

theorem replayable_joinGroup (t : Term K) (gs : List (Group K)) : Replayable (joinGroup t gs) := by
  induction gs with
  | nil => exact replayable_pure none
  | cons g rest ih =>
    have joins (conversion : Option (Conversion K)) : Replayable (joinHead t g rest conversion) := by
      cases conversion with
      | some c => exact (replayable_lift _).bind fun p => replayable_pure _
      | none => exact ih.bind fun found => replayable_pure _
    rw [joinGroup_cons]
    split
    next => exact (replayable_termConversion t g.head).bind joins
    next => exact joins none

theorem replayable_groupTerms (factor : Factor K) (gs : List (Group K)) (ts : List (Term K)) :
    Replayable (groupTerms factor gs ts) := by
  induction ts generalizing factor gs with
  | nil => exact replayable_pure _
  | cons t rest ih =>
    refine (replayable_joinGroup t gs).bind fun found => ?_
    split
    next => exact ih _ _
    next => exact ih _ _

/-- Merging a unit again gives what it gave. -/
theorem replayable_mergeFactor (u : Compound K) : Replayable (mergeFactor u) := by
  refine (replayable_groupTerms _ _ _).bind fun r => ?_
  dsimp only
  rw [Action.mapM_lift]
  exact (replayable_lift _).bind fun ts => (replayable_lift _).bind fun c => replayable_pure _

/-! ### Identities -/

variable {lex : Lexicon K} {d : Dimension} {u x : Compound K} {s t : Session K}
variable {found : Option (Conversion K)}

omit [Scalar K] in
/-- A unit that compares at all is like itself. -/
theorem same_self {m : Compound K} {alike : Bool} (compared : m.same m = .ok alike) :
    alike = true := by
  rw [Compound.same, if_pos rfl] at compared
  obtain ⟨e, given, compared⟩ := bind_eq_ok.mp compared
  obtain ⟨e', given', compared⟩ := bind_eq_ok.mp compared
  obtain rfl := Except.ok.inj (given.symm.trans given')
  rw [← Except.ok.inj compared]
  exact beq_self_eq_true e

/-- The answer is the quotient of the factor that merging the unit gives and that factor. -/
def IsIdentity (d : Dimension) (u : Compound K) (f : Factor K) (found : Option (Conversion K)) : Prop :=
  ∃ q, f.div f = .ok q ∧ found = some ⟨d.code, u.write .ascii, u.write .ascii, q⟩

/-- Merging the unit gives a factor, and again, and the answer is the identity for it. -/
def Identified (d : Dimension) (u : Compound K) (s : Session K) (found : Option (Conversion K)) :
    Prop :=
  ∃ f m, Replays (mergeFactor u) (f, m) s ∧ IsIdentity d u f found

theorem Identified.mono (identified : Identified d u s found)
    (later : ∀ e key found, Remembered e key found s → Remembered e key found t) :
    Identified d u t found := by
  obtain ⟨f, m, replays, identity⟩ := identified
  exact ⟨f, m, replays.mono later, identity⟩

/-- The second merging is a replay of the first one, so the merged units are the same. -/
theorem exists_of_compute (run : (compute mergeFactor d u u).apply s = (.ok found, t)) :
    ∃ f m, ((mergeFactor u).apply s).1 = .ok (f, m) ∧ Replays (mergeFactor u) (f, m) t ∧
      IsIdentity d u f found := by
  obtain ⟨⟨f, m⟩, mid, merged, run⟩ := Action.bind_apply_eq_ok.mp run
  have again := (replayable_mergeFactor u).replays s (f, m) mid merged
  obtain ⟨⟨f', m'⟩, mid', merged', run⟩ := Action.bind_apply_eq_ok.mp run
  obtain ⟨same, rfl⟩ := Prod.mk.inj (again.run.symm.trans merged')
  obtain ⟨rfl, rfl⟩ := Prod.mk.inj (Except.ok.inj same)
  obtain ⟨q, _, lifted, run⟩ := Action.bind_apply_eq_ok.mp run
  obtain ⟨divided, rfl⟩ := Prod.mk.inj lifted
  obtain ⟨alike, _, lifted, run⟩ := Action.bind_apply_eq_ok.mp run
  obtain ⟨compared, rfl⟩ := Prod.mk.inj lifted
  rw [same_self compared, if_pos rfl] at run
  obtain ⟨given, rfl⟩ := Prod.mk.inj run
  exact ⟨f, m, by rw [merged], again, q, divided, (Except.ok.inj given).symm⟩

theorem identified_of_compute (run : (compute mergeFactor d u u).apply s = (.ok found, t)) :
    Identified d u t found := by
  obtain ⟨f, m, _, again, identity⟩ := exists_of_compute run
  exact ⟨f, m, again, identity⟩

/-! ### What is remembered of a unit and itself -/

/-- The key under which the conversion of a unit to itself is remembered. -/
def selfKey (u : Compound K) : EdgeKey := (u.write .ascii, u.write .ascii)

/-- What is remembered of the unit and itself is as said. -/
def Recollects (lex : Lexicon K) (u : Compound K) (P : Dimension → Option (Conversion K) → Prop)
    (s : Session K) : Prop :=
  s.lexicon = lex ∧ ∀ d found, Remembered d (selfKey u) found s → P d found

theorem keptByRoutes_recollects {P : Dimension → Option (Conversion K) → Prop} :
    KeptByRoutes (fun _ => True) (Recollects lex u P) :=
  keptByRoutes_of_answers fun _ _ lexicon answers ⟨own, recollects⟩ =>
    ⟨lexicon.trans own, fun d found known => recollects d found ((remembered_congr answers).mp known)⟩

omit [Scalar K] in
/-- Of an answer that is added, nothing new is known under other keys. -/
theorem remembered_of_putAnswer {e : Dimension} {key key' : EdgeKey} {found' : Option (Conversion K)}
    (known : Remembered d key found
      (s.putChart e { s.chart e with answers := (s.chart e).answers.put key' found' })) :
    (e = d ∧ key' = key ∧ found' = found) ∨ Remembered d key found s := by
  unfold Remembered at known
  rw [chart_putChart] at known
  split at known
  next same =>
    subst same
    replace known : ((s.chart e).answers.put key' found').get? key = some found := known
    rw [Register.get?_put] at known
    split at known
    next own => exact .inl ⟨rfl, own, Option.some.inj known⟩
    next => exact .inr known
  next => exact .inr known

/-- No other unit with its symbol is meant. -/
def Distinguished (u v : Compound K) : Prop := v.write .ascii = u.write .ascii → v = u

theorem recollects_conversionIn {P : Dimension → Option (Conversion K) → Prop} {src dest : UnitRef K}
    (merges : ∀ x, lex.deref src = .ok x ∨ lex.deref dest = .ok x →
      (mergeFactor x).Keeps (Recollects lex u P) fun _ => True)
    (own : ∀ x y, lex.deref src = .ok x → lex.deref dest = .ok y →
      (x.write .ascii, y.write .ascii) = selfKey u → ∀ s found t,
        (compute mergeFactor d x y).apply s = (.ok found, t) → P d found) :
    (conversionIn d src dest).Keeps (Recollects lex u P) fun _ => True := by
  intro s ⟨lexicon, recollects⟩
  refine ⟨?_, fun _ _ => trivial⟩
  rw [conversionIn, answer_apply]
  cases passes : ((validate d src).apply s).1 with
  | error _ => exact ⟨lexicon, recollects⟩
  | ok x =>
    cases passes' : ((validate d dest).apply s).1 with
    | error _ => exact ⟨lexicon, recollects⟩
    | ok y =>
      dsimp only
      cases (s.chart d).answers.get? (x.write .ascii, y.write .ascii) with
      | some _ => exact ⟨lexicon, recollects⟩
      | none =>
        have meant : lex.deref src = .ok x := lexicon ▸ deref_of_validate passes
        have meant' : lex.deref dest = .ok y := lexicon ▸ deref_of_validate passes'
        have computed := (keptByRoutes_recollects.compute d (merges x (.inl meant))
          (merges y (.inr meant'))).invariant ⟨lexicon, recollects⟩
        rcases run : (compute mergeFactor d x y).apply s with ⟨_ | new, t⟩
        · rw [run] at computed
          exact computed
        · rw [run] at computed
          refine ⟨computed.1, fun e found known => ?_⟩
          rcases remembered_of_putAnswer known with ⟨rfl, same, rfl⟩ | before
          · exact own x y meant meant' same s new t run
          · exact computed.2 e found before

/-- Merging the unit leaves it as it is, whatever is remembered. -/
def Inert (u : Compound K) : Prop := (mergeFactor u : Action (Session K) _) = return (.one, u)

/-- Of an inert unit the identity is the same in every session. -/
theorem identified_iff_of_inert (inert : Inert u) :
    Identified d u s found ↔ IsIdentity d u .one found := by
  constructor
  · rintro ⟨f, m, replays, identity⟩
    have once := replays.run
    rw [inert] at once
    obtain ⟨rfl, -⟩ := Prod.mk.inj (Except.ok.inj (Prod.mk.inj once).1)
    exact identity
  · intro identity
    refine ⟨.one, u, ?_, identity⟩
    rw [inert]
    exact (replayable_pure _).replays s _ s rfl

/-- Merging a unit asks for the conversion of a unit to itself only if this is one of its parts. -/
theorem recollects_mergeFactor {P : Dimension → Option (Conversion K) → Prop}
    (alone : ∀ c, x.HasPart c → Distinguished u c)
    (inert : Inert u → ∀ d found, IsIdentity d u .one found → P d found) :
    (mergeFactor x).Keeps (Recollects lex u P) fun _ => True := by
  refine mergeFactor_keeps fun t mem h mem' => termConversion_keeps fun d v w made made' => ?_
  refine recollects_conversionIn (fun y meant => ?_) fun y z meant meant' same s found after run => ?_
  · have inertY : Inert y := meant.elim (mergeFactor_term made) (mergeFactor_term made')
    rw [inertY]
    exact .pure trivial
  · obtain ⟨sameY, sameZ⟩ := Prod.mk.inj same
    obtain rfl := alone y ⟨t, mem, v, made, meant⟩ sameY
    obtain rfl := alone z ⟨h, mem', w, made', meant'⟩ sameZ
    have inertZ : Inert z := mergeFactor_term made meant
    exact inert inertZ d found ((identified_iff_of_inert inertZ).mp (identified_of_compute run))

/-- Every conversion of the unit to itself that is remembered is the identity for the factor that
merging the unit gives. -/
def Recognizes (lex : Lexicon K) (u : Compound K) (s : Session K) : Prop :=
  Recollects lex u (fun d found => Identified d u s found) s

theorem keptByRoutes_recognizes : KeptByRoutes (fun _ => True) (Recognizes lex u) :=
  keptByRoutes_of_answers fun _ _ lexicon answers ⟨own, recognizes⟩ =>
    ⟨lexicon.trans own, fun d found known =>
      (recognizes d found ((remembered_congr answers).mp known)).mono
        fun _ _ _ => (remembered_congr answers).mpr⟩

section
variable {src dest : UnitRef K} {o : Session K}
variable (asksSrc : Asks o (Distinguished u) src) (asksDest : Asks o (Distinguished u) dest)
include asksSrc asksDest

/-- Of an inert unit the identity does not depend on the session. -/
theorem recognizes_conversionIn_of_inert (inert : Inert u) :
    (conversionIn d src dest).Keeps (Recognizes o.lexicon u) fun _ => True := by
  have same : Recognizes o.lexicon u =
      Recollects o.lexicon u fun d found => IsIdentity d u .one found := by
    funext s
    simp only [Recognizes, Recollects, identified_iff_of_inert inert]
  have parts (x : Compound K) (meant : o.lexicon.deref src = .ok x ∨ o.lexicon.deref dest = .ok x) :
      ∀ c, x.HasPart c → Distinguished u c :=
    meant.elim (fun meant => (asksSrc x meant).2) fun meant => (asksDest x meant).2
  rw [same]
  refine recollects_conversionIn
    (fun x meant => recollects_mergeFactor (parts x meant) fun _ _ _ identity => identity)
    fun x y meant meant' same s found t run => ?_
  obtain rfl := (asksSrc x meant).1 (Prod.mk.inj same).1
  obtain rfl := (asksDest y meant').1 (Prod.mk.inj same).2
  exact (identified_iff_of_inert inert).mp (identified_of_compute run)

/-- To convert a unit that is not inert to itself is what nothing else asks for, so what is remembered
of it was remembered before, or it is the answer. -/
theorem recollects_of_conversionIn (inert : ¬ Inert u) (lexicon : s.lexicon = o.lexicon) :
    Recollects o.lexicon u (fun e found => Remembered e (selfKey u) found s ∨
      Identified e u ((conversionIn d src dest).apply s).2 found)
      ((conversionIn d src dest).apply s).2 := by
  have computes {x y : Compound K} (meant : o.lexicon.deref src = .ok x)
      (meant' : o.lexicon.deref dest = .ok y) : (compute mergeFactor d x y).Keeps
        (Recollects o.lexicon u fun e found => Remembered e (selfKey u) found s) fun _ => True :=
    keptByRoutes_recollects.compute d
      (recollects_mergeFactor (asksSrc x meant).2 fun isInert => absurd isInert inert)
      (recollects_mergeFactor (asksDest y meant').2 fun isInert => absurd isInert inert)
  rw [conversionIn, answer_apply]
  cases passes : ((validate d src).apply s).1 with
  | error _ => exact ⟨lexicon, fun _ _ => .inl⟩
  | ok x =>
    cases passes' : ((validate d dest).apply s).1 with
    | error _ => exact ⟨lexicon, fun _ _ => .inl⟩
    | ok y =>
      dsimp only
      cases missing : (s.chart d).answers.get? (x.write .ascii, y.write .ascii) with
      | some _ => exact ⟨lexicon, fun _ _ => .inl⟩
      | none =>
        have meant : o.lexicon.deref src = .ok x := lexicon ▸ deref_of_validate passes
        have meant' : o.lexicon.deref dest = .ok y := lexicon ▸ deref_of_validate passes'
        have computed := (computes meant meant').invariant ⟨lexicon, fun _ _ known => known⟩
        rcases run : (compute mergeFactor d x y).apply s with ⟨_ | answer, t⟩
        · rw [run] at computed
          exact ⟨computed.1, fun e found known => .inl (computed.2 e found known)⟩
        · rw [run] at computed
          refine ⟨computed.1, fun e found known => ?_⟩
          rcases remembered_of_putAnswer known with ⟨rfl, same, rfl⟩ | before
          · obtain rfl := (asksSrc x meant).1 (Prod.mk.inj same).1
            obtain rfl := (asksDest y meant').1 (Prod.mk.inj same).2
            refine .inr ((identified_of_compute run).mono fun e' key found' known => ?_)
            refine known.putAnswer (fun sameDimension sameKey => ?_) answer
            subst sameDimension sameKey
            cases missing.symm.trans (computed.2 _ _ known)
          · exact .inl (computed.2 e found before)

/-- Conversions leave what is remembered of a unit and itself right, unless another unit with its
symbol is asked for. -/
theorem recognizes_conversionIn :
    (conversionIn d src dest).Keeps (Recognizes o.lexicon u) fun _ => True := by
  by_cases inert : Inert u
  · exact recognizes_conversionIn_of_inert asksSrc asksDest inert
  · intro s recognizes
    have added := recollects_of_conversionIn asksSrc asksDest inert recognizes.1 (d := d)
    refine ⟨⟨added.1, fun e found known => ?_⟩, fun _ _ => trivial⟩
    rcases added.2 e found known with before | new
    · refine (recognizes.2 e found before).mono fun e' key found' known => ?_
      exact ((keptByLookups_remembered e' key found').conversionIn d src dest).invariant known
    · exact new

end

/-! ### Questions -/

/-- A term without its exponent has no other parts. -/
theorem asks_term {o : Session K} {h v : Term K} {asked : Compound K → Prop}
    (made : h.withoutExponent = .ok v) (is : ∀ c, o.lexicon.deref (.term v) = .ok c → asked c) :
    Asks o asked (.term v) := by
  intro c meant
  refine ⟨is c meant, fun e ⟨t, mem, w, made', single⟩ => ?_⟩
  rcases terms_of_deref made meant with rfl | ⟨rfl, _, _, again⟩
  · cases mem
  · obtain rfl := List.mem_singleton.mp mem
    obtain rfl := Except.ok.inj (again.symm.trans made')
    exact is e single

theorem recognizes_mergeFactor {o : Session K} (parts : ∀ c, x.HasPart c → Distinguished u c) :
    (mergeFactor x).Keeps (Recognizes o.lexicon u) fun _ => True :=
  mergeFactor_keeps fun t mem h mem' => termConversion_keeps fun _ v w made made' =>
    recognizes_conversionIn (asks_term made fun c meant => parts c ⟨t, mem, v, made, meant⟩)
      (asks_term made' fun c meant => parts c ⟨h, mem', w, made', meant⟩)

theorem keptAmong_recognizes (o : Session K) (u : Compound K) :
    KeptAmong o (fun _ => True) (Distinguished u) (Recognizes o.lexicon u) where
  lexicon _ recognizes := recognizes.1
  expands _ _ _ _ _ _ _ := trivial
  conversion _ _ _ := recognizes_conversionIn
  merging _ _ parts := recognizes_mergeFactor parts
  reduction _ bridging _ := keptByRoutes_recognizes.toBase trivial bridging
  edges _ d recognizes := (keptByRoutes_recognizes.edges d).invariant recognizes
  network := keptByRoutes_recognizes.network
  route := keptByRoutes_recognizes.route

/-- Where nothing is remembered, what is remembered is right. -/
theorem Forgotten.recognizes (forgotten : s.Forgotten) (u : Compound K) :
    Recognizes s.lexicon u s := by
  refine ⟨rfl, fun d found known => ?_⟩
  rw [Remembered, forgotten.chart] at known
  cases known

/-- A unit is converted to itself by the factor that merging it gives, divided by itself. -/
theorem identity_of_conversionIn {ref ref' : UnitRef K} (recognizes : Recognizes lex u s)
    (meant : lex.deref ref = .ok u) (meant' : lex.deref ref' = .ok u)
    (given : ((conversionIn d ref ref').apply s).1 = .ok found) :
    ∃ f m, ((mergeFactor u).apply s).1 = .ok (f, m) ∧ IsIdentity d u f found := by
  have own {r : UnitRef K} {x : Compound K} (passes : ((validate d r).apply s).1 = .ok x)
      (is : lex.deref r = .ok u) : x = u :=
    Except.ok.inj ((deref_of_validate passes).symm.trans (recognizes.1 ▸ is))
  rw [conversionIn, answer_apply] at given
  cases passes : ((validate d ref).apply s).1 with
  | error _ => rw [passes] at given; cases given
  | ok x =>
    cases passes' : ((validate d ref').apply s).1 with
    | error _ => rw [passes, passes'] at given; cases given
    | ok y =>
      rw [passes, passes'] at given
      obtain rfl := own passes meant
      obtain rfl := own passes' meant'
      dsimp only at given
      cases known : (s.chart d).answers.get? (y.write .ascii, y.write .ascii) with
      | some answer =>
        rw [known] at given
        obtain rfl := Except.ok.inj given
        obtain ⟨f, m, replays, identity⟩ := recognizes.2 d answer known
        exact ⟨f, m, by rw [replays.run], identity⟩
      | none =>
        rw [known] at given
        rcases run : (compute mergeFactor d y y).apply s with ⟨_ | answer, t⟩
        · rw [run] at given
          cases given
        · rw [run] at given
          obtain rfl := Except.ok.inj given
          obtain ⟨f, m, merged, _, identity⟩ := exists_of_compute run
          exact ⟨f, m, merged, identity⟩

/-- Nothing is compared where no two terms have the same dimension. -/
theorem one_of_mergeFactor {f : Factor K} {m : Compound K}
    (apart : u.terms.Pairwise fun t t' => t.unit.dimension ≠ t'.unit.dimension)
    (merged : ((mergeFactor u).apply s).1 = .ok (f, m)) : f = .one := by
  have unjoined : Unjoined s u.terms := apart.imp fun differ alike => absurd alike differ
  have grouped : (groupTerms .one [] u.terms).apply s =
      (.ok (.one, u.terms.map fun t => ⟨t, t.exponent⟩), s) := groupTerms_of_unjoined unjoined
  rcases run : (mergeFactor u).apply s with ⟨r, t⟩
  rw [run] at merged
  obtain rfl := merged
  obtain ⟨r, _, first, run⟩ := Action.bind_apply_eq_ok.mp run
  obtain ⟨same, rfl⟩ := Prod.mk.inj (grouped.symm.trans first)
  obtain rfl := Except.ok.inj same
  obtain ⟨ts, _, _, run⟩ := Action.bind_apply_eq_ok.mp run
  obtain ⟨c, _, _, run⟩ := Action.bind_apply_eq_ok.mp run
  obtain ⟨given, _⟩ := Prod.mk.inj run
  exact (Prod.mk.inj (Except.ok.inj given)).1.symm

/-- In exact arithmetic a factor is divided by itself into one, and its error counts twice. -/
theorem factor_of_isIdentity [Field K] [LinearOrder K] [Scalar.Exact K] {f : Factor K}
    (identity : IsIdentity d u f found) :
    found = some ⟨d.code, u.write .ascii, u.write .ascii, ⟨1, f.error + f.error⟩⟩ := by
  obtain ⟨q, divided, rfl⟩ := identity
  have nonzero : f.value ≠ 0 := by
    intro zero
    rw [Factor.div, if_pos ((Scalar.Exact.isZero_iff _).mpr zero)] at divided
    cases divided
  rw [Factor.div_eq nonzero, div_self nonzero] at divided
  rw [Except.ok.inj divided]

/-- **A unit converts to itself by one.** A session is made from any systems; conversions are added and
removed and questions are asked, in any order, and the changes are made or refused. If the session then
gives a conversion of a unit to itself, there is one. Its factor is the one that merging the unit gives
there, divided by itself: exactly it is 1, and its relative error is twice that of merging, since
relative errors are added where factors are divided. Where no two terms have the same dimension, it has
none. Conversions are remembered by the symbols of units, so none of the units that were compared since
the last change that was made, nor of the parts of this one, may be another unit with its symbol. -/
theorem conversion_to_itself {systems : List MeasurementSystem} {s : Session K}
    (made : ofSystems systems = .ok s) {events : List (Event K)} {ref : UnitRef K} {u : Compound K}
    (meant : s.lexicon.deref ref = .ok u)
    (alone : ∀ q ∈ .conversion ref ref :: recent [] events s, ∀ v, q.Compares s.lexicon v →
      v.write .ascii = u.write .ascii → v = u) {found : Option (Conversion K)}
    (given : ((conversion ref ref).apply (after events s)).1 = .ok found) :
    ∃ d f m, u.dimension = .ok d ∧ ((mergeFactor u).apply (after events s)).1 = .ok (f, m) ∧
      IsIdentity d u f found ∧
      ((u.terms.Pairwise fun t t' => t.unit.dimension ≠ t'.unit.dimension) → f = .one) ∧
      ∀ [Field K] [LinearOrder K] [Scalar.Exact K],
        found = some ⟨d.code, u.write .ascii, u.write .ascii, ⟨1, f.error + f.error⟩⟩ := by
  obtain ⟨o, same, forgotten, reached⟩ : ∃ o : Session K, o.lexicon = s.lexicon ∧ o.Forgotten ∧
      o.Reached (recent [] events s) (after events s) :=
    exists_origin (fun t e same => (lexicon_event e t).trans same) rfl (blank_of_ofSystems made).2
      .start rfl
  have recognizes : Recognizes s.lexicon u (after events s) := by
    rw [← same] at alone ⊢
    exact reached.unchanged.keepsAmong (keptAmong_recognizes o u) (forgotten.recognizes u)
      (fun _ _ _ _ _ _ => trivial) fun q mem => alone q (List.mem_cons_of_mem _ mem)
  rw [Session.conversion, Action.apply_bind, parse_apply, recognizes.1, meant] at given
  dsimp only at given
  rw [Action.apply_bind, Action.apply_lift] at given
  cases dimension : u.dimension with
  | error e => rw [dimension] at given; cases given
  | ok d =>
    rw [dimension] at given
    obtain ⟨f, m, merged, identity⟩ := identity_of_conversionIn recognizes rfl meant given
    exact ⟨d, f, m, rfl, merged, identity, fun apart => one_of_mergeFactor apart merged,
      factor_of_isIdentity identity⟩

/-- A pixel is known to a hundredth, and asked about. -/
def graded : List (Event ℚ) :=
  [.addConversion "px" "p" ⟨3/4, 1/100⟩, .ask (.merge 2 (.symbol "px*p"))]

/-- Pixels by points are joined, with an error, and converted to themselves. -/
theorem pixels_by_points : ∃ (u : Compound ℚ) (found : Option (Conversion ℚ)),
    ofSystems [.typography] = .ok typographer ∧ typographer.lexicon.parse "px*p" = .ok u ∧
    (∀ q ∈ .conversion (.symbol "px*p") (.symbol "px*p") :: recent [] graded typographer, ∀ v,
      q.Compares typographer.lexicon v → v.write .ascii = u.write .ascii → v = u) ∧
    ((conversion (.symbol "px*p") (.symbol "px*p")).apply (after graded typographer)).1 =
      .ok found ∧
    ∃ d f m, u.dimension = .ok d ∧ ((mergeFactor u).apply (after graded typographer)).1 = .ok (f, m) ∧
      found = some ⟨d.code, u.write .ascii, u.write .ascii, ⟨1, f.error + f.error⟩⟩ := by
  have facts : (typographer.lexicon.parse "px*p").toOption.any (fun u => u.reordered = u) = true ∧
      ((conversion (.symbol "px*p") (.symbol "px*p")).apply (after graded typographer)).1 =
        .ok (some ⟨"L2", "px*p", "px*p", ⟨1, 1/50⟩⟩) := by decide +kernel
  obtain ⟨ordered, given⟩ := facts
  have tabled := tabled_ofSystems ofSystems_typographer
  cases read : typographer.lexicon.parse "px*p" with
  | error e => simp [read, Except.toOption] at ordered
  | ok u =>
    have named : ∀ q ∈ .conversion (.symbol "px*p") (.symbol "px*p") ::
        recent [] graded typographer, ∀ ref ∈ q.refs, ∃ text ∈ ["px*p"], ref = .symbol text := by
      intro q mem
      rcases List.mem_cons.mp mem with rfl | mem
      · simp [Query.refs]
      · rcases mem_recent mem with old | own
        · cases old
        · obtain rfl : q = .merge 2 (.symbol "px*p") := by simpa [graded] using own
          simp [Query.refs]
    have apart : TellsApart typographer.lexicon (.conversion (.symbol "px*p") (.symbol "px*p") ::
        recent [] graded typographer) := by
      refine tellsApart_of_texts tabled _ named fun text listed v own => ?_
      obtain rfl := List.mem_singleton.mp listed
      obtain rfl := Except.ok.inj (read.symm.trans own)
      simpa [read, Except.toOption] using ordered
    have alone : ∀ q ∈ .conversion (.symbol "px*p") (.symbol "px*p") :: recent [] graded typographer,
        ∀ v, q.Compares typographer.lexicon v → v.write .ascii = u.write .ascii → v = u :=
      fun q mem v compares => apart q mem _ List.mem_cons_self v u compares
        ⟨_, List.mem_cons_self, u, read, .inl rfl⟩
    have meant : typographer.lexicon.deref (.symbol "px*p") = .ok u := read
    obtain ⟨d, f, m, dimension, merged, _, _, exactly⟩ :=
      conversion_to_itself ofSystems_typographer meant alone given
    exact ⟨u, _, ofSystems_typographer, rfl, alone, given, d, f, m, dimension, merged, exactly⟩

/-- The conversion of a unit to itself has an error, and there is none once it was not found for
another unit with the symbol. -/
theorem not_exactly_one :
    ((conversion (.symbol "px*p") (.symbol "px*p")).apply (after graded typographer)).1 =
      .ok (some ⟨"L2", "px*p", "px*p", ⟨1, 1/50⟩⟩) ∧
    reply [.conversion (.symbol "p-1*px3") (.symbol "px3/p")] (.symbol "px3/p") (.symbol "px3/p")
      (after graded typographer) = .ok none := by
  decide +kernel

end Metrology.Session
