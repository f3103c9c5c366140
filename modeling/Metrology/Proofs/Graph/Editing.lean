import Metrology.Proofs.Graph.Rebuilding

/-!
# Editing the edges

Adding and removing edits the edges that are built at the moment, and what the caller's edges and
removals are for later buildings. Both agree: the edges of a dimension are at any time the map that
building them anew would give.
-/
namespace Metrology

variable {K : Type} [Scalar K] {lex : Lexicon K} {store : EdgeStore K} {d : Dimension}

namespace EdgeStore

/-! ### What an edit comes to -/

/-- The store once an edge of the caller's was put to the edges of its dimension. -/
def keep (store : EdgeStore K) (d : Dimension) (es : Edges K) (c : Conversion K) : EdgeStore K :=
  { store with
    edges := store.edges.put d (es.put (c.src, c.dest) c)
    added := store.added.put d ((store.addedIn d).put (c.src, c.dest) c)
    removed := store.removed.put d ((store.removedIn d).filter (· ≠ (c.src, c.dest))) }

/-- The store once an edge was taken out of the edges of its dimension. -/
def drop (store : EdgeStore K) (d : Dimension) (es : Edges K) (key : EdgeKey) : EdgeStore K :=
  { store with
    edges := store.edges.put d (es.erase key)
    added := store.added.put d ((store.addedIn d).erase key)
    removed := store.removed.put d (if (store.removedIn d).contains key then store.removedIn d
      else store.removedIn d ++ [key]) }

/-- Noting a key once more changes nothing. -/
theorem mem_noted {keys : List EdgeKey} {key other : EdgeKey} :
    other ∈ (if keys.contains key then keys else keys ++ [key]) ↔ other = key ∨ other ∈ keys := by
  split
  next old => exact ⟨.inr, fun h => h.elim (fun same => same ▸ List.contains_iff_mem.mp old) id⟩
  next => simp [or_comm]

/-- An edit that is refused has at most built the edges of a dimension. -/
def Refused {α : Type} (lex : Lexicon K) (store : EdgeStore K) (outcome : Except Error α × EdgeStore K) :
    Prop :=
  (∃ e, outcome.1 = .error e) ∧
    (outcome.2 = store ∨ ∃ d, outcome.2 = ((edgesOf lex d).apply store).2)

theorem Refused.exists_error {α : Type} {outcome : Except Error α × EdgeStore K}
    (refused : Refused lex store outcome) : ∃ e store', outcome = (.error e, store') :=
  have ⟨e, failed⟩ := refused.1
  ⟨e, outcome.2, Prod.ext failed rfl⟩

/-- What holds of a store, however it is built, still holds after an edit that is refused. -/
theorem Refused.keeps {α : Type} {P : EdgeStore K → Prop} {outcome : Except Error α × EdgeStore K}
    (refused : Refused lex store outcome) (holds : P store)
    (built : ∀ d, P ((edgesOf lex d).apply store).2) : P outcome.2 := by
  rcases refused.2 with same | ⟨d, same⟩
  · exact same ▸ holds
  · exact same ▸ built d

/-- The dimension and the ends that a removal is about. -/
def removal (lex : Lexicon K) (src dest : String) : Except Error (Dimension × EdgeKey) := do
  let srcUnit ← (← lex.parse src).withoutPrefixes
  let destUnit ← (← lex.parse dest).withoutPrefixes
  return (← srcUnit.dimension, (srcUnit.write .ascii, destUnit.write .ascii))

theorem add_cases (lex : Lexicon K) (src dest : String) (factor : Factor K) (store : EdgeStore K) :
    Refused lex store ((add lex src dest factor).apply store) ∨
      ∃ u v d es built c, lex.parse src = .ok u ∧ lex.parse dest = .ok v ∧ u.dimension = .ok d ∧
        v.dimension = .ok d ∧ Scalar.isNotPositive factor.value = false ∧
        (edgesOf lex d).apply store = (.ok es, built) ∧ unprefixed d u v factor = .ok c ∧
        (add lex src dest factor).apply store = (.ok c, built.keep d es c) := by
  rw [add, Action.apply_bind, Action.apply_lift]
  cases src_eq : lex.parse src with
  | error e => exact .inl ⟨⟨e, rfl⟩, .inl rfl⟩
  | ok u =>
    dsimp only
    rw [Action.apply_bind, Action.apply_lift]
    cases dest_eq : lex.parse dest with
    | error e => exact .inl ⟨⟨e, rfl⟩, .inl rfl⟩
    | ok v =>
      dsimp only
      rw [Action.apply_bind, Action.apply_lift]
      cases srcDimension : u.dimension with
      | error e => exact .inl ⟨⟨e, rfl⟩, .inl rfl⟩
      | ok d =>
        dsimp only
        rw [Action.apply_bind, Action.apply_lift]
        cases destDimension : v.dimension with
        | error e => exact .inl ⟨⟨e, rfl⟩, .inl rfl⟩
        | ok e =>
          dsimp only
          split
          next => exact .inl ⟨⟨_, rfl⟩, .inl rfl⟩
          next alike =>
            obtain rfl : d = e := by simpa using alike
            cases sign : Scalar.isNotPositive factor.value with
            | true => exact .inl ⟨⟨_, rfl⟩, .inl rfl⟩
            | false =>
              rw [if_neg Bool.false_ne_true, Action.apply_bind]
              rcases built_eq : (edgesOf lex d).apply store with ⟨e | es, built⟩
              · exact .inl ⟨⟨e, rfl⟩, .inr ⟨d, by rw [built_eq]⟩⟩
              · dsimp only
                rw [Action.apply_bind, Action.apply_lift]
                cases made : unprefixed d u v factor with
                | error e => exact .inl ⟨⟨e, rfl⟩, .inr ⟨d, by rw [built_eq]⟩⟩
                | ok c =>
                  exact .inr ⟨u, v, d, es, built, c, rfl, rfl, srcDimension, destDimension, rfl,
                    built_eq, made, rfl⟩

theorem remove_cases (lex : Lexicon K) (src dest : String) (store : EdgeStore K) :
    Refused lex store ((remove lex src dest).apply store) ∨
      ∃ d key es built, removal lex src dest = .ok (d, key) ∧
        (edgesOf lex d).apply store = (.ok es, built) ∧
        (remove lex src dest).apply store = (.ok (es.get? key), built.drop d es key) := by
  rw [remove, removal, Action.apply_bind, Action.apply_lift]
  cases lex.parse src with
  | error e => exact .inl ⟨⟨e, rfl⟩, .inl rfl⟩
  | ok u =>
    dsimp only
    rw [Action.apply_bind, Action.apply_lift]
    cases plain : u.withoutPrefixes with
    | error e => exact .inl ⟨⟨e, rfl⟩, .inl rfl⟩
    | ok u' =>
      dsimp only
      rw [Action.apply_bind, Action.apply_lift]
      cases lex.parse dest with
      | error e => exact .inl ⟨⟨e, rfl⟩, .inl rfl⟩
      | ok v =>
        dsimp only
        rw [Action.apply_bind, Action.apply_lift]
        cases plain' : v.withoutPrefixes with
        | error e => exact .inl ⟨⟨e, rfl⟩, .inl rfl⟩
        | ok v' =>
          dsimp only
          rw [Action.apply_bind, Action.apply_lift]
          cases given : u'.dimension with
          | error e => exact .inl ⟨⟨e, rfl⟩, .inl rfl⟩
          | ok d =>
            dsimp only
            rw [Action.apply_bind]
            rcases built_eq : (edgesOf lex d).apply store with ⟨e | es, built⟩
            · exact .inl ⟨⟨e, rfl⟩, .inr ⟨d, by rw [built_eq]⟩⟩
            · refine .inr ⟨d, (u'.write .ascii, v'.write .ascii), es, built, ?_, built_eq, ?_⟩
              · simp [plain, plain', given, bind, Except.bind, pure, Except.pure]
              · simp only [drop, List.contains_iff_mem]
                rfl

theorem refused_of_add {src dest : String} {factor : Factor K} {e : Error} {store' : EdgeStore K}
    (failed : (add lex src dest factor).apply store = (.error e, store')) :
    Refused lex store ((.error e, store') : Except Error (Conversion K) × EdgeStore K) := by
  rcases add_cases lex src dest factor store with
    refused | ⟨_, _, _, _, _, _, _, _, _, _, _, _, _, run⟩
  · exact failed ▸ refused
  · rw [failed] at run
    cases run

theorem kept_of_add {src dest : String} {factor : Factor K} {c : Conversion K} {store' : EdgeStore K}
    (made : (add lex src dest factor).apply store = (.ok c, store')) :
    ∃ u v d es built, lex.parse src = .ok u ∧ lex.parse dest = .ok v ∧ u.dimension = .ok d ∧
      v.dimension = .ok d ∧ (edgesOf lex d).apply store = (.ok es, built) ∧
      unprefixed d u v factor = .ok c ∧ store' = built.keep d es c := by
  rcases add_cases lex src dest factor store with
    refused | ⟨u, v, d, es, built, c', read, read', own, own', _, edges, unprefixed, run⟩
  · obtain ⟨e, left, failed⟩ := refused.exists_error
    rw [made] at failed
    cases failed
  · obtain ⟨same, rfl⟩ := Prod.mk.inj (made.symm.trans run)
    obtain rfl := Except.ok.inj same
    exact ⟨u, v, d, es, built, read, read', own, own', edges, unprefixed, rfl⟩

theorem refused_of_remove {src dest : String} {e : Error} {store' : EdgeStore K}
    (failed : (remove lex src dest).apply store = (.error e, store')) :
    Refused lex store ((.error e, store') : Except Error (Option (Conversion K)) × EdgeStore K) := by
  rcases remove_cases lex src dest store with refused | ⟨_, _, _, _, _, _, run⟩
  · exact failed ▸ refused
  · rw [failed] at run
    cases run

theorem dropped_of_remove {src dest : String} {c : Option (Conversion K)} {store' : EdgeStore K}
    (made : (remove lex src dest).apply store = (.ok c, store')) :
    ∃ d key es built, removal lex src dest = .ok (d, key) ∧
      (edgesOf lex d).apply store = (.ok es, built) ∧ store' = built.drop d es key := by
  rcases remove_cases lex src dest store with refused | ⟨d, key, es, built, removal, edges, run⟩
  · obtain ⟨e, left, failed⟩ := refused.exists_error
    rw [made] at failed
    cases failed
  · exact ⟨d, key, es, built, removal, edges, (Prod.mk.inj (made.symm.trans run)).2⟩

/-! ### The same map -/

/-- Edges that are the same map. -/
def Alike (es es' : Edges K) : Prop := ∀ key, es.get? key = es'.get? key

/-- Both fail, or both give the same map. -/
structure SameMap (x y : Except Error (Edges K)) : Prop where
  forth : ∀ es, x = .ok es → ∃ es', y = .ok es' ∧ Alike es es'
  back : ∀ es', y = .ok es' → ∃ es, x = .ok es ∧ Alike es es'

omit [Scalar K] in
theorem SameMap.refl (x : Except Error (Edges K)) : SameMap x x :=
  ⟨fun es same => ⟨es, same, fun _ => rfl⟩, fun es same => ⟨es, same, fun _ => rfl⟩⟩

omit [Scalar K] in
theorem SameMap.symm {x y : Except Error (Edges K)} (same : SameMap x y) : SameMap y x where
  forth es' given :=
    have ⟨es, own, alike⟩ := same.back es' given
    ⟨es, own, fun key => (alike key).symm⟩
  back es given :=
    have ⟨es', own, alike⟩ := same.forth es given
    ⟨es', own, fun key => (alike key).symm⟩

omit [Scalar K] in
theorem SameMap.trans {x y z : Except Error (Edges K)} (first : SameMap x y)
    (second : SameMap y z) : SameMap x z where
  forth es given :=
    have ⟨mid, own, alike⟩ := first.forth es given
    have ⟨es', own', alike'⟩ := second.forth mid own
    ⟨es', own', fun key => (alike key).trans (alike' key)⟩
  back es' given :=
    have ⟨mid, own', alike'⟩ := second.back es' given
    have ⟨es, own, alike⟩ := first.back mid own'
    ⟨es, own, fun key => (alike key).trans (alike' key)⟩

omit [Scalar K] in
/-- Edges that differ under a key are not the same map. -/
theorem not_sameMap {x y : Except Error (Edges K)} {key : EdgeKey} {c c' : Option (Conversion K)}
    (here : x.toOption.map (·.get? key) = some c) (there : y.toOption.map (·.get? key) = some c')
    (differ : c ≠ c') : ¬ SameMap x y := by
  intro same
  obtain ⟨es, rfl, own⟩ := exists_ok_of_map_eq_some here
  obtain ⟨es', rfl, alike⟩ := same.forth es rfl
  have other : es'.get? key = c' := Option.some.inj there
  exact differ (own.symm.trans ((alike key).trans other))

/-- The edges of every dimension are the map that building them anew gives. -/
structure Faithful (lex : Lexicon K) (store : EdgeStore K) : Prop where
  orderly : store.Orderly
  sameMap : ∀ d, SameMap (current lex store d) (store.build lex d)

theorem build_congr {store' : EdgeStore K} (added : store'.addedIn d = store.addedIn d)
    (removed : store'.removedIn d = store.removedIn d) : store'.build lex d = store.build lex d := by
  rw [build, build, added, removed]

/-- Where nothing is built, the edges are those that building gives. -/
theorem current_of_unbuilt (unbuilt : store.built = []) :
    current lex store d = store.build lex d := by
  rw [current_eq, unbuilt]
  rfl

theorem faithful_reload (orderly : store.Orderly) : Faithful lex store.reload :=
  ⟨orderly.reload, fun d => by
    rw [current_of_unbuilt rfl]
    exact .refl _⟩

theorem faithful_empty : Faithful lex (empty : EdgeStore K) :=
  ⟨orderly_empty, fun d => by
    rw [current_of_unbuilt rfl]
    exact .refl _⟩

/-- Building one dimension leaves the caller's edges and removals. -/
theorem marks_edgesOf (lex : Lexicon K) (store : EdgeStore K) (d : Dimension) :
    ((edgesOf lex d).apply store).2.added = store.added ∧
      ((edgesOf lex d).apply store).2.removed = store.removed := by
  rw [edgesOf_spec]
  split
  next => exact ⟨rfl, rfl⟩
  next => split <;> exact ⟨rfl, rfl⟩

theorem Faithful.edgesOf (faithful : Faithful lex store) (d : Dimension) :
    Faithful lex ((EdgeStore.edgesOf lex d).apply store).2 where
  orderly := (orderly_edgesOf d).invariant faithful.orderly
  sameMap e := by
    obtain ⟨added, removed⟩ := marks_edgesOf lex store d
    have same : ((EdgeStore.edgesOf lex d).apply store).2.build lex e = store.build lex e :=
      build_congr (by rw [addedIn, addedIn, added]) (by rw [removedIn, removedIn, removed])
    rw [current_edgesOf, same]
    exact faithful.sameMap e

/-- At most, edges of the first store were built. -/
structure Looked (lex : Lexicon K) (store store' : EdgeStore K) : Prop where
  added : store'.added = store.added
  removed : store'.removed = store.removed
  faithful : Faithful lex store → Faithful lex store'

theorem looked_refl (lex : Lexicon K) (store : EdgeStore K) : Looked lex store store :=
  ⟨rfl, rfl, id⟩

theorem Looked.edgesOf {store' : EdgeStore K} (looked : Looked lex store store') (d : Dimension) :
    Looked lex store ((EdgeStore.edgesOf lex d).apply store').2 where
  added := (marks_edgesOf lex store' d).1.trans looked.added
  removed := (marks_edgesOf lex store' d).2.trans looked.removed
  faithful was := (looked.faithful was).edgesOf d

theorem Refused.looked {α : Type} {outcome : Except Error α × EdgeStore K}
    (refused : Refused lex store outcome) : Looked lex store outcome.2 :=
  refused.keeps (looked_refl lex store) (looked_refl lex store).edgesOf

theorem looked_of_edgesOf {es : Edges K} {built : EdgeStore K}
    (given : (edgesOf lex d).apply store = (.ok es, built)) : Looked lex store built := by
  have looked := (looked_refl lex store).edgesOf d
  rw [given] at looked
  exact looked

/-- Where the edges of a dimension were given, they are built. -/
theorem built_of_edgesOf {es : Edges K} {built : EdgeStore K}
    (given : (edgesOf lex d).apply store = (.ok es, built)) :
    built.built.contains d ∧ es = (built.edges.get? d).getD .empty := by
  rw [edgesOf_spec] at given
  split at given
  next already =>
    obtain ⟨edges, rfl⟩ := Prod.mk.inj given
    exact ⟨already, (Except.ok.inj edges).symm⟩
  next =>
    split at given
    next =>
      obtain ⟨edges, rfl⟩ := Prod.mk.inj given
      obtain rfl := Except.ok.inj edges
      simp
    next => cases given

/-- The edges, additions and removals of one built dimension are replaced by others that belong
together. -/
theorem Faithful.replace (faithful : Faithful lex store) (isBuilt : store.built.contains d)
    {es added : Edges K} {removed : List EdgeKey} {store' : EdgeStore K}
    (is : store' = { store with
      edges := store.edges.put d es
      added := store.added.put d added
      removed := store.removed.put d removed })
    (keyed : Keyed es) (keyedAdded : Keyed added)
    (named : ∀ row ∈ added.rows, ∃ ends, parseEnds lex row.2.src row.2.dest = .ok ends)
    (same : ∀ key, es.get? key = overlay lex ((added.get? key).map some)
      (if key ∈ removed then none else tabledEdge? lex d key)) : Faithful lex store' := by
  subst is
  refine ⟨faithful.orderly.putBoth keyed keyedAdded, fun e => ?_⟩
  by_cases here : d = e
  · subst here
    obtain ⟨_, wasBuilt, _⟩ := (faithful.sameMap d).forth _ (by rw [current_eq, if_pos isBuilt])
    obtain ⟨es', built⟩ : ∃ es', build { store with
        edges := store.edges.put d es
        added := store.added.put d added
        removed := store.removed.put d removed } lex d = .ok es' := by
      refine build_isOk_iff.mpr ⟨(build_isOk_iff.mp ⟨_, wasBuilt⟩).1, ?_⟩
      simpa [addedIn] using named
    have alike : Alike es es' := by
      intro key
      have rebuilt := get?_build (faithful.orderly.putBoth keyed keyedAdded) built key
      simp only [addedIn, removedIn, Register.get?_put_self, Option.getD_some] at rebuilt
      rw [rebuilt, same]
    rw [current_eq, if_pos isBuilt, built]
    simp only [Register.get?_put_self, Option.getD_some]
    exact ⟨fun es given => ⟨es', rfl, Except.ok.inj given ▸ alike⟩,
      fun es given => ⟨_, rfl, Except.ok.inj given ▸ alike⟩⟩
  · have unchanged : ∀ lex : Lexicon K, build { store with
        edges := store.edges.put d es
        added := store.added.put d added
        removed := store.removed.put d removed } lex e = store.build lex e := by
      intro lex
      refine build_congr ?_ ?_
      · simp [addedIn, here]
      · simp [removedIn, here]
    have map := faithful.sameMap e
    rw [current_eq] at map ⊢
    simp only [unchanged, Register.get?_put, here, if_false]
    exact map

/-- Keeping an edge puts it to the edges of its dimension and leaves those of the others. -/
theorem current_keep (isBuilt : store.built.contains d) (es : Edges K) (c : Conversion K)
    (e : Dimension) : current lex (store.keep d es c) e =
      if d = e then .ok (es.put (c.src, c.dest) c) else current lex store e := by
  have built : (store.keep d es c).built = store.built := rfl
  rw [current_eq, built]
  by_cases here : d = e
  · subst here
    rw [if_pos isBuilt, if_pos rfl]
    simp [EdgeStore.keep]
  · have unbuilt : (store.keep d es c).build lex e = store.build lex e :=
      build_congr (by simp [EdgeStore.keep, addedIn, here]) (by simp [EdgeStore.keep, removedIn, here])
    rw [if_neg here, current_eq, unbuilt]
    simp [EdgeStore.keep, here]

/-- Dropping an edge takes it out of the edges of its dimension and leaves those of the others. -/
theorem current_drop (isBuilt : store.built.contains d) (es : Edges K) (key : EdgeKey)
    (e : Dimension) : current lex (store.drop d es key) e =
      if d = e then .ok (es.erase key) else current lex store e := by
  have built : (store.drop d es key).built = store.built := rfl
  rw [current_eq, built]
  by_cases here : d = e
  · subst here
    rw [if_pos isBuilt, if_pos rfl]
    simp [EdgeStore.drop]
  · have unbuilt : (store.drop d es key).build lex e = store.build lex e := by
      refine build_congr ?_ ?_
      · simp [EdgeStore.drop, addedIn, here]
      · simp [EdgeStore.drop, removedIn, here]
    rw [if_neg here, current_eq, unbuilt]
    simp [EdgeStore.drop, here]

/-- Putting an edge whose ends can be read. -/
theorem Faithful.keep (faithful : Faithful lex store) (isBuilt : store.built.contains d)
    {c : Conversion K} (named : isNamed lex c = true) :
    Faithful lex (store.keep d ((store.edges.get? d).getD .empty) c) := by
  have registered : current lex store d = .ok ((store.edges.get? d).getD .empty) := by
    rw [current_eq, if_pos isBuilt]
  have keyed := faithful.orderly.current registered
  obtain ⟨fresh, built, alike⟩ := (faithful.sameMap d).forth _ registered
  refine faithful.replace isBuilt rfl (keyed.put rfl) ((faithful.orderly.added d).put rfl)
    (fun row mem => ?_) fun key => ?_
  · rcases Register.mem_rows_put mem with rfl | old
    · unfold isNamed at named
      cases src : lex.parse c.src with
      | error e => simp [src, Except.isOk, Except.toBool] at named
      | ok u =>
        cases dest : lex.parse c.dest with
        | error e => simp [dest, Except.isOk, Except.toBool] at named
        | ok v => exact ⟨some (u, v), by simp [parseEnds, src, dest, bind, Except.bind, pure, Except.pure]⟩
    · exact (build_isOk_iff.mp ⟨fresh, built⟩).2 row old
  · by_cases own : (c.src, c.dest) = key
    · simp [own, overlay, named]
    · rw [Register.get?_put, if_neg own, alike key, get?_build faithful.orderly built,
        Register.get?_put, if_neg own]
      have stays : key ∈ (store.removedIn d).filter (· ≠ (c.src, c.dest)) ↔
          key ∈ store.removedIn d := by simp [Ne.symm own]
      simp only [stays]

/-- Taking an edge out. -/
theorem Faithful.drop (faithful : Faithful lex store) (isBuilt : store.built.contains d)
    (key : EdgeKey) : Faithful lex (store.drop d ((store.edges.get? d).getD .empty) key) := by
  have registered : current lex store d = .ok ((store.edges.get? d).getD .empty) := by
    rw [current_eq, if_pos isBuilt]
  have keyed := faithful.orderly.current registered
  obtain ⟨fresh, built, alike⟩ := (faithful.sameMap d).forth _ registered
  refine faithful.replace isBuilt rfl (keyed.erase key) ((faithful.orderly.added d).erase key)
    (fun row mem => (build_isOk_iff.mp ⟨fresh, built⟩).2 row (Register.mem_rows_erase mem))
    fun other => ?_
  simp only [mem_noted]
  by_cases own : key = other
  · simp [own, overlay]
  · rw [Register.get?_erase, if_neg own, alike other, get?_build faithful.orderly built,
      Register.get?_erase, if_neg own]
    simp [Ne.symm own]

end EdgeStore

end Metrology
