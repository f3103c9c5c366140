import Metrology.Proofs.Parallel
import Metrology.Proofs.Session.Runs
import Metrology.Proofs.Session.Soundness
import Metrology.Proofs.Unit.Algebra

/-!
# The normal form of a merged unit

Merging compares a term with the first term of every group of its dimension, and what does not
convert is remembered as such. What is remembered stays remembered while questions are asked, so the
terms that are left do not convert to one another, and merging them again finds nothing to join.
-/
namespace Metrology.Session

variable {K : Type} [Scalar K]

/-! ### Remembered answers -/

/-- The answer is remembered for two symbols in a dimension. -/
def Remembered (d : Dimension) (key : EdgeKey) (found : Option (Conversion K)) (s : Session K) :
    Prop :=
  (s.chart d).answers.get? key = some found

variable {d : Dimension} {key : EdgeKey} {found : Option (Conversion K)} {s s' : Session K}

omit [Scalar K] in
/-- An answer is added only where none was remembered. -/
theorem Remembered.putAnswer (known : Remembered d key found s) {e : Dimension} {key' : EdgeKey}
    (new : e = d → key' ≠ key) (found' : Option (Conversion K)) :
    Remembered d key found
      (s.putChart e { s.chart e with answers := (s.chart e).answers.put key' found' }) := by
  unfold Remembered
  rw [chart_putChart]
  split
  next same =>
    subst same
    show ((s.chart e).answers.put key' found').get? key = some found
    rw [Register.get?_put, if_neg (new rfl)]
    exact known
  next => exact known

omit [Scalar K] in
theorem remembered_congr (answers : ∀ d, (s'.chart d).answers = (s.chart d).answers) :
    Remembered d key found s' ↔ Remembered d key found s := by
  rw [Remembered, Remembered, answers d]

/-- Looking up routes and factors leaves the answers as they are. -/
theorem keptByRoutes_of_answers {I : Session K → Prop}
    (alike : ∀ s t : Session K, t.lexicon = s.lexicon →
      (∀ d, (t.chart d).answers = (s.chart d).answers) → I s → I t) :
    KeptByRoutes (fun _ => True) I := by
  have stored {s : Session K} (holds : I s) (store : EdgeStore K) : I { s with store := store } :=
    alike s _ rfl (fun _ => rfl) holds
  have drawing {s : Session K} (holds : I s) (e : Dimension) (r : Option (Routes K)) :
      I (s.putChart e { s.chart e with routes := r }) := by
    refine alike s _ rfl (fun d => ?_) holds
    rw [chart_putChart]
    split
    next same => exact same ▸ rfl
    next => rfl
  have routes (e : Dimension) : (routes e).Keeps I fun _ => True := by
    intro s holds
    rw [routes_apply]
    cases (s.chart e).routes with
    | some r => exact ⟨holds, fun _ _ => trivial⟩
    | none =>
      rcases (EdgeStore.edgesOf s.lexicon e).apply s.store with ⟨_ | es, store⟩
      · exact ⟨stored holds store, fun _ _ => trivial⟩
      · exact ⟨drawing (stored holds store) e _, fun _ _ => trivial⟩
  refine ⟨fun _ _ _ _ _ => trivial, fun _ _ _ _ => trivial,
    fun e s holds => ⟨stored holds _, fun _ _ => trivial⟩, routes,
    fun e src dest s holds => ?_, fun depth bridging u _ finds s holds => ?_⟩
  · have drawn := (routes e).invariant holds
    rw [route_apply]
    rcases run : (Session.routes e).apply s with ⟨_ | r, t⟩
    · rw [run] at drawn
      exact ⟨drawn, fun _ _ => trivial⟩
    · rw [run] at drawn
      exact ⟨drawing drawn e _, fun _ _ => trivial⟩
  · have found := finds.invariant holds
    rw [reduceUnit_apply]
    cases s.baseFactors.get? (u.asciiSymbol, bridging) with
    | some _ => exact ⟨holds, fun _ _ => trivial⟩
    | none =>
      rcases run : (factorAnew depth bridging u).apply s with ⟨_ | factor, t⟩
      · rw [run] at found
        exact ⟨found, fun _ _ => trivial⟩
      · rw [run] at found
        exact ⟨alike t _ rfl (fun _ => rfl) found, fun _ _ => trivial⟩

/-- What is remembered is not overwritten. -/
theorem keptByLookups_remembered (d : Dimension) (key : EdgeKey)
    (found : Option (Conversion K)) : KeptByLookups (Remembered d key found) where
  toKeptByRoutes := keptByRoutes_of_answers fun _ _ _ answers => (remembered_congr answers).mpr
  conversion e src dest computes s known := by
    refine ⟨?_, fun _ _ => trivial⟩
    rw [conversionIn, answer_apply]
    cases passes : ((validate e src).apply s).1 with
    | error _ => exact known
    | ok u =>
      cases passes' : ((validate e dest).apply s).1 with
      | error _ => exact known
      | ok v =>
        dsimp only
        cases missing : (s.chart e).answers.get? (u.write .ascii, v.write .ascii) with
        | some _ => exact known
        | none =>
          have computed := (computes s.lexicon u v (deref_of_validate passes)
            (deref_of_validate passes')).invariant known
          have new : e = d → (u.write .ascii, v.write .ascii) ≠ key := by
            rintro rfl rfl
            cases missing.symm.trans known
          rcases run : (compute mergeFactor e u v).apply s with ⟨_ | found', t⟩
          · rw [run] at computed
            exact computed
          · rw [run] at computed
            exact computed.putAnswer new found'

/-! ### Terms that do not convert -/

/-- The units that two terms without their exponents stand for, and their dimension. -/
structure Compares (t head v w : Term K) (x y : Compound K) : Prop where
  first : t.withoutExponent = .ok v
  second : head.withoutExponent = .ok w
  meant : Compound.ofTerms [v] = .ok x
  meant' : Compound.ofTerms [w] = .ok y
  dimension : x.dimension = .ok t.unit.dimension
  dimension' : y.dimension = .ok t.unit.dimension

/-- It is remembered that a term does not convert to another. -/
def Unlike (t head : Term K) (s : Session K) : Prop :=
  ∃ v w x y, Compares t head v w x y ∧
    Remembered t.unit.dimension (x.write .ascii, y.write .ascii) none s

variable {t head : Term K}

omit [Scalar K] in
/-- The exponents of the terms do not matter. -/
theorem Unlike.raised (unlike : Unlike t head s) (m n : Int) :
    Unlike ⟨t.unit, t.scaling, m⟩ ⟨head.unit, head.scaling, n⟩ s := by
  obtain ⟨v, w, x, y, ⟨first, second, meant, meant', dimension, dimension'⟩, known⟩ := unlike
  exact ⟨v, w, x, y, ⟨first, second, meant, meant', dimension, dimension'⟩, known⟩

omit [Scalar K] in
/-- What keeps answers keeps those that say that terms do not convert. -/
theorem Unlike.after {α : Type} {a : Action (Session K) α} {Q : α → Prop}
    (keeps : ∀ d key, a.Keeps (Remembered d key none) Q) (unlike : Unlike t head s) :
    Unlike t head (a.apply s).2 := by
  obtain ⟨v, w, x, y, compares, known⟩ := unlike
  exact ⟨v, w, x, y, compares, (keeps _ _).invariant known⟩

theorem conversionIn_of_remembered {src dest : UnitRef K} {x y : Compound K}
    (passes : ((validate d src).apply s).1 = .ok x) (passes' : ((validate d dest).apply s).1 = .ok y)
    (known : Remembered d (x.write .ascii, y.write .ascii) found s) :
    (conversionIn d src dest).apply s = (.ok found, s) := by
  rw [conversionIn, answer_apply, passes, passes']
  dsimp only
  rw [known]

theorem Unlike.termConversion (unlike : Unlike t head s) :
    (termConversion t head).apply s = (.ok none, s) := by
  obtain ⟨v, w, x, y, compares, known⟩ := unlike
  rw [termConversion_eq, Action.apply_bind, compares.first, Action.apply_lift]
  dsimp only
  rw [Action.apply_bind, compares.second, Action.apply_lift]
  exact conversionIn_of_remembered (validate_eq_ok.mpr ⟨compares.meant, compares.dimension⟩)
    (validate_eq_ok.mpr ⟨compares.meant', compares.dimension'⟩) known

/-- The terms without their exponents are units that do not convert. -/
theorem Unlike.conversion (unlike : Unlike t head s) :
    ∃ v w, t.withoutExponent = .ok v ∧ head.withoutExponent = .ok w ∧
      (conversion (.term v) (.term w)).apply s = (.ok none, s) := by
  obtain ⟨v, w, x, y, compares, known⟩ := unlike
  refine ⟨v, w, compares.first, compares.second, ?_⟩
  rw [Session.conversion, Action.apply_bind, parse_apply]
  have meant : s.lexicon.deref (.term v) = .ok x := compares.meant
  rw [meant]
  dsimp only
  rw [Action.apply_bind, compares.dimension, Action.apply_lift]
  exact conversionIn_of_remembered (validate_eq_ok.mpr ⟨rfl, compares.dimension⟩)
    (validate_eq_ok.mpr ⟨compares.meant', compares.dimension'⟩) known

/-- An answer is remembered from then on. -/
theorem remembered_of_conversionIn {src dest : UnitRef K}
    (run : (conversionIn d src dest).apply s = (.ok found, s')) :
    ∃ x y, ((validate d src).apply s).1 = .ok x ∧ ((validate d dest).apply s).1 = .ok y ∧
      Remembered d (x.write .ascii, y.write .ascii) found s' := by
  rw [conversionIn, answer_apply] at run
  cases passes : ((validate d src).apply s).1 with
  | error e =>
    rw [passes] at run
    cases run
  | ok x =>
    cases passes' : ((validate d dest).apply s).1 with
    | error e =>
      rw [passes, passes'] at run
      cases run
    | ok y =>
      rw [passes, passes'] at run
      dsimp only at run
      refine ⟨x, y, rfl, rfl, ?_⟩
      cases known : (s.chart d).answers.get? (x.write .ascii, y.write .ascii) with
      | some old =>
        rw [known] at run
        obtain ⟨same, rfl⟩ := Prod.mk.inj run
        rwa [← Except.ok.inj same]
      | none =>
        rcases computed : (compute mergeFactor d x y).apply s with ⟨_ | new, t⟩
        · rw [known, computed] at run
          cases run
        · rw [known, computed] at run
          obtain ⟨same, rfl⟩ := Prod.mk.inj run
          unfold Remembered
          rw [chart_putChart, if_pos rfl, ← Except.ok.inj same]
          show ((t.chart d).answers.put _ new).get? _ = some new
          rw [Register.get?_put, if_pos rfl]

/-- A term that is found not to convert is remembered so. -/
theorem unlike_of_termConversion (run : (termConversion t head).apply s = (.ok none, s')) :
    Unlike t head s' := by
  rw [termConversion_eq] at run
  obtain ⟨v, _, lifted, rest⟩ := Action.bind_apply_eq_ok.mp run
  obtain ⟨first, rfl⟩ := Prod.mk.inj lifted
  obtain ⟨w, _, lifted', asked⟩ := Action.bind_apply_eq_ok.mp rest
  obtain ⟨second, rfl⟩ := Prod.mk.inj lifted'
  obtain ⟨x, y, passes, passes', known⟩ := remembered_of_conversionIn asked
  obtain ⟨meant, dimension⟩ := validate_eq_ok.mp passes
  obtain ⟨meant', dimension'⟩ := validate_eq_ok.mp passes'
  exact ⟨v, w, x, y, ⟨first, second, meant, meant', dimension, dimension'⟩, known⟩

/-! ### Groups that do not convert -/

variable {g : Group K} {gs gs' : List (Group K)} {ts : List (Term K)} {f f' : Factor K}

/-- A term that joins no group converts to none of those of its dimension. -/
theorem unlike_of_joinGroup (run : (joinGroup t gs).apply s = (.ok none, s')) :
    ∀ g ∈ gs, g.head.unit.dimension = t.unit.dimension → Unlike t g.head s' := by
  induction gs generalizing s with
  | nil => exact fun _ mem => absurd mem List.not_mem_nil
  | cons g rest ih =>
    -- passing over a group, the term is tried with the others
    have passed {u : Session K} (run : (joinHead t g rest none).apply u = (.ok none, s')) :
        (joinGroup t rest).apply u = (.ok none, s') := by
      obtain ⟨joined, _, later, answered⟩ := Action.bind_apply_eq_ok.mp run
      obtain ⟨none, rfl⟩ := Prod.mk.inj answered
      rw [later, Option.map_eq_none_iff.mp (Except.ok.inj none)]
    rw [joinGroup_cons] at run
    split at run
    next =>
      obtain ⟨conversion, u, asked, run⟩ := Action.bind_apply_eq_ok.mp run
      cases conversion with
      | some c =>
        obtain ⟨_, _, _, some⟩ := Action.bind_apply_eq_ok.mp run
        cases some
      | none =>
        have later := passed run
        have unlike : Unlike t g.head s' := by
          have kept := (unlike_of_termConversion asked).after
            fun d key => (keptByLookups_remembered d key none).joinGroup t rest
          rwa [later] at kept
        exact List.forall_mem_cons.mpr ⟨fun _ => unlike, ih later⟩
    next other => exact List.forall_mem_cons.mpr ⟨fun alike => absurd alike other, ih (passed run)⟩

/-- No term converts to an earlier one of its dimension, and that is remembered. -/
def Unjoined (s : Session K) (ts : List (Term K)) : Prop :=
  ts.Pairwise fun t u => t.unit.dimension = u.unit.dimension → Unlike u t s

omit [Scalar K] in
theorem Unjoined.after {α : Type} {a : Action (Session K) α} {Q : α → Prop}
    (keeps : ∀ d key, a.Keeps (Remembered d key none) Q) (unjoined : Unjoined s ts) :
    Unjoined (a.apply s).2 ts :=
  unjoined.imp fun unlike alike => (unlike alike).after keeps

/-- Terms are sorted into groups that do not convert, which some of them open in their order. -/
theorem unjoined_groupTerms (run : (groupTerms f gs ts).apply s = (.ok (f', gs'), s'))
    (unjoined : Unjoined s (gs.map Group.head)) :
    Unjoined s' (gs'.map Group.head) ∧ (gs'.map Group.head).Sublist (gs.map Group.head ++ ts) := by
  induction ts generalizing f gs s with
  | nil =>
    obtain ⟨same, rfl⟩ := Prod.mk.inj run
    obtain ⟨_, rfl⟩ := Prod.mk.inj (Except.ok.inj same)
    exact ⟨unjoined, (List.append_nil _).symm ▸ List.Sublist.refl _⟩
  | cons t rest ih =>
    obtain ⟨found, u, joined, later⟩ := Action.bind_apply_eq_ok.mp run
    have kept : Unjoined u (gs.map Group.head) := by
      have after := unjoined.after
        fun d key => (keptByLookups_remembered d key none).joinGroup t gs
      rwa [joined] at after
    cases found with
    | some r =>
      have opensNone : (joinGroup t gs).Keeps (fun _ : Session K => True) fun found =>
          ∀ r, found = some r → r.2.map Group.head = gs.map Group.head :=
        joinGroup_keeps fun _ _ _ _ => ⟨trivial, fun _ _ => trivial⟩
      have heads := opensNone.answer trivial (by rw [joined]) r rfl
      obtain ⟨apart, opened⟩ := ih later (heads ▸ kept)
      refine ⟨apart, opened.trans ?_⟩
      rw [heads]
      exact (List.sublist_cons_self t rest).append_left _
    | none =>
      have opens : (gs ++ [(⟨t, t.exponent⟩ : Group K)]).map Group.head = gs.map Group.head ++ [t] := by
        simp
      have more : Unjoined u ((gs ++ [(⟨t, t.exponent⟩ : Group K)]).map Group.head) := by
        rw [opens]
        refine List.pairwise_append.mpr ⟨kept, List.pairwise_singleton _ _, fun h mem v own alike => ?_⟩
        obtain ⟨g, isIn, rfl⟩ := List.mem_map.mp mem
        obtain rfl := List.mem_singleton.mp own
        exact unlike_of_joinGroup joined g isIn alike
      obtain ⟨apart, opened⟩ := ih later more
      rw [opens, List.append_assoc] at opened
      exact ⟨apart, opened⟩

/-- A term that is known to convert to no group of its dimension joins none. -/
theorem joinGroup_of_unlike
    (unlike : ∀ g ∈ gs, g.head.unit.dimension = t.unit.dimension → Unlike t g.head s) :
    (joinGroup t gs).apply s = (.ok none, s) := by
  induction gs with
  | nil => rfl
  | cons g rest ih =>
    obtain ⟨first, others⟩ := List.forall_mem_cons.mp unlike
    have passes : (joinHead t g rest none).apply s = (.ok none, s) :=
      Action.bind_apply_eq_ok.mpr ⟨none, s, ih others, rfl⟩
    rw [joinGroup_cons]
    split
    next alike => exact Action.bind_apply_eq_ok.mpr ⟨none, s, (first alike).termConversion, passes⟩
    next => exact passes

/-- Terms that are known not to convert open a group each. -/
theorem groupTerms_of_unjoined (unjoined : Unjoined s (gs.map Group.head ++ ts)) :
    (groupTerms f gs ts).apply s = (.ok (f, gs ++ ts.map fun t => ⟨t, t.exponent⟩), s) := by
  induction ts generalizing gs with
  | nil => simp [groupTerms]
  | cons t rest ih =>
    have own : ∀ g ∈ gs, g.head.unit.dimension = t.unit.dimension → Unlike t g.head s :=
      fun g mem => (List.pairwise_append.mp unjoined).2.2 g.head (List.mem_map_of_mem mem) t
        List.mem_cons_self
    have more : Unjoined s ((gs ++ [(⟨t, t.exponent⟩ : Group K)]).map Group.head ++ rest) := by
      simpa using unjoined
    have opened := ih more
    rw [List.append_assoc] at opened
    exact Action.bind_apply_eq_ok.mpr ⟨none, s, joinGroup_of_unlike own, opened⟩

variable {u m : Compound K} {P : NamedUnit K → Option (Prefix K) → Prop}

/-- Where no term converts to an earlier one, merging changes nothing. -/
theorem mergeFactor_of_unjoined (sound : m.Sound P) (unjoined : Unjoined s m.terms) :
    (mergeFactor m).apply s = (.ok (.one, m), s) := by
  have shown : (m.terms.map fun t => (⟨t, t.exponent⟩ : Group K)).filter (fun g => g.exponent ≠ 0)
      = m.terms.map fun t => ⟨t, t.exponent⟩ := by
    refine List.filter_eq_self.mpr fun g mem => ?_
    obtain ⟨t, inside, rfl⟩ := List.mem_map.mp mem
    simpa using (sound.terms t inside).1.nonzero
  have leveled : (m.terms.map fun t => (⟨t, t.exponent⟩ : Group K)).mapM
      (fun g => g.head.withExponent g.exponent) = .ok m.terms := by
    refine mapM_eq_ok.mpr (List.forall₂_map_left_iff.mpr (List.forall₂_same.mpr fun t mem => ?_))
    exact (sound.terms t mem).1.make_self
  rw [mergeFactor]
  refine Action.bind_apply_eq_ok.mpr ⟨_, s, groupTerms_of_unjoined unjoined, ?_⟩
  dsimp only
  rw [List.nil_append, shown, Action.mapM_lift, leveled]
  refine Action.bind_apply_eq_ok.mpr ⟨_, s, rfl, ?_⟩
  rw [sound.ofTerms_terms]
  rfl

/-- What a unit merges into has no terms that convert to one another. -/
theorem unjoined_of_mergeFactor (sound : u.Sound P)
    (run : (mergeFactor u).apply s = (.ok (f, m), s')) : m.Sound P ∧ Unjoined s' m.terms := by
  obtain ⟨⟨_, gs⟩, after, grouped, run⟩ := Action.bind_apply_eq_ok.mp run
  obtain ⟨apart, opened⟩ := unjoined_groupTerms grouped List.Pairwise.nil
  rw [List.map_nil, List.nil_append] at opened
  dsimp only at run
  rw [Action.mapM_lift] at run
  obtain ⟨ts, _, lifted, run⟩ := Action.bind_apply_eq_ok.mp run
  obtain ⟨made, rfl⟩ := Prod.mk.inj lifted
  obtain ⟨c, _, lifted, answered⟩ := Action.bind_apply_eq_ok.mp run
  obtain ⟨product, rfl⟩ := Prod.mk.inj lifted
  obtain ⟨same, rfl⟩ := Prod.mk.inj answered
  obtain ⟨rfl, rfl⟩ := Prod.mk.inj (Except.ok.inj same)
  have shape := terms_of_groups made
  have terms : ∀ t ∈ ts, t.Sound P ∧ t.isScalar = false :=
    sound_of_groups (fun g mem => sound.terms _ (opened.subset (List.mem_map_of_mem mem))) made
  have distinct : Compound.Distinct ts := by
    rw [shape]
    exact List.pairwise_map.mpr ((List.pairwise_map.mp (sound.distinct.sublist opened)).filter _)
  have unjoined : Unjoined after ts := by
    rw [shape]
    refine List.pairwise_map.mpr (((List.pairwise_map.mp apart).filter _).imp fun unlike alike => ?_)
    exact (unlike alike).raised _ _
  have whole : (⟨ts⟩ : Compound K).Sound P := ⟨terms, distinct⟩
  obtain rfl := Except.ok.inj (whole.ofTerms_terms.symm.trans product)
  exact ⟨whole, unjoined⟩

/-- Questions leave what does not convert as it is. -/
theorem Unjoined.asked (unjoined : Unjoined s ts) (asked : List (Query K)) :
    Unjoined (perform (asked.map .ask) s) ts := by
  induction asked generalizing s with
  | nil => exact unjoined
  | cons q rest ih =>
    refine ih (unjoined.imp fun unlike alike => ?_)
    obtain ⟨v, w, x, y, compares, known⟩ := unlike alike
    exact ⟨v, w, x, y, compares, (keptByLookups_remembered _ _ _).ask known q⟩

/-- Of the terms no one converts to an earlier one whose unit has the same dimension, both without
their exponents, and merging changes nothing. -/
structure InNormalForm (s : Session K) (m : Compound K) : Prop where
  apart : m.terms.Pairwise fun t t' => t.unit.dimension = t'.unit.dimension →
    ∃ v v', t.withoutExponent = .ok v ∧ t'.withoutExponent = .ok v' ∧
      ((conversion (.term v') (.term v)).apply s).1 = .ok none
  again : ((mergeFactor m).apply s).1 = .ok (.one, m)

/-- **Merging gives a normal form.** Whatever happened to a session, and whatever it is asked once a
unit was merged, the terms that are left do not convert to one another, and merging them again gives
the factor 1, without an error, and the same terms. -/
theorem merged_in_normal_form (built : u.Built) (run : (mergeFactor u).apply s = (.ok (f, m), s'))
    (asked : List (Query K)) : (perform (asked.map .ask) s').InNormalForm m := by
  obtain ⟨sound, unjoined⟩ := unjoined_of_mergeFactor built.sound run
  have later := unjoined.asked asked
  refine ⟨later.imp fun unlike alike => ?_, ?_⟩
  · obtain ⟨v', v, made', made, none⟩ := (unlike alike).conversion
    exact ⟨v, v', made, made', by rw [none]⟩
  · rw [mergeFactor_of_unjoined sound later]

/-- The factor and the symbol of what a text merges into. -/
def mergedText (s : Session K) (text : String) : Except Error (Factor K × String) := do
  let u ← s.lexicon.parse text
  let r ← ((mergeFactor u).apply s).1
  return (r.1, r.2.write .ascii)

/-- Points are known by the pica, pixels are not. -/
def inPicas : Session ℚ := after [.addConversion "P" "p" ⟨12, 0⟩] typographer

theorem mergedText_inPicas : mergedText inPicas "P*px*p" = .ok (⟨1/12, 0⟩, "P2*px") := by
  decide +kernel

/-- Picas and points are joined, and pixels are left. -/
theorem pixels_left : ∃ (u m : Compound ℚ) (s : Session ℚ),
    inPicas.lexicon.parse "P*px*p" = .ok u ∧
    (mergeFactor u).apply inPicas = (.ok (⟨1/12, 0⟩, m), s) ∧ m.write .ascii = "P2*px" ∧
    (perform ([.conversion (.symbol "px") (.symbol "P")].map .ask) s).InNormalForm m := by
  obtain ⟨u, read, rest⟩ := bind_eq_ok.mp mergedText_inPicas
  obtain ⟨⟨f, m⟩, merged, rest⟩ := bind_eq_ok.mp rest
  obtain ⟨rfl, written⟩ := Prod.mk.inj (Except.ok.inj rest)
  have run : (mergeFactor u).apply inPicas =
      (.ok (⟨1/12, 0⟩, m), ((mergeFactor u).apply inPicas).2) := Prod.ext merged rfl
  exact ⟨u, m, _, read, run, written, merged_in_normal_form (.parsed read) run _⟩

end Metrology.Session
