import Metrology.Proofs.Graph.Editing

/-!
# Edges that are accounted for

The edges that a dimension shows are those that building gives, except that the caller's own edges are
shown also where a building would leave them out, because their ends cannot be read. Building,
editing and reloading keep this. So where the caller's edges can be read, reloading changes no edge.
-/
namespace Metrology

variable {K : Type} [Scalar K]

namespace EdgeStore

variable {lex : Lexicon K} {store store' : EdgeStore K} {d : Dimension}

/-- What is shown of a dimension is what building gives, except for edges of the caller's, which may be
shown though a building would leave them out. -/
structure Accounts (lex : Lexicon K) (store : EdgeStore K) (d : Dimension) (es : Edges K) : Prop where
  known : ∃ known, (rows lex d).foldlM (addRow lex d) .empty = .ok known
  shown : ∀ key,
    (es.get? key = overlay lex (((store.addedIn d).get? key).map some)
        (if key ∈ store.removedIn d then none else tabledEdge? lex d key) ∧
      ∀ c, (store.addedIn d).get? key = some c → ∃ ends, parseEnds lex c.src c.dest = .ok ends) ∨
    ∃ c, (store.addedIn d).get? key = some c ∧ es.get? key = some c

variable {es : Edges K}

theorem accounts_of_build (orderly : store.Orderly) (built : store.build lex d = .ok es) :
    Accounts lex store d es := by
  obtain ⟨known, named⟩ := build_isOk_iff.mp ⟨es, built⟩
  refine ⟨known, fun key => .inl ⟨get?_build orderly built key, fun c given => ?_⟩⟩
  exact named (key, c) (Register.mem_rows_of_get? given)

theorem Accounts.congr (accounts : Accounts lex store d es)
    (added : store'.addedIn d = store.addedIn d) (removed : store'.removedIn d = store.removedIn d) :
    Accounts lex store' d es := by
  refine ⟨accounts.known, fun key => ?_⟩
  rw [added, removed]
  exact accounts.shown key

/-- Where the caller's edges that are shown can be read, building gives what is shown. -/
theorem Accounts.build (accounts : Accounts lex store d es) (orderly : store.Orderly)
    (named : ∀ key c, (store.addedIn d).get? key = some c → es.get? key = some c →
      isNamed lex c = true) :
    ∃ es', store.build lex d = .ok es' ∧ Alike es es' := by
  have ends (c : Conversion K) (read : isNamed lex c = true) :
      ∃ ends, parseEnds lex c.src c.dest = .ok ends := by
    obtain ⟨src, dest⟩ := Bool.and_eq_true_iff.mp read
    cases first : lex.parse c.src with
    | error e => simp [first, Except.isOk, Except.toBool] at src
    | ok u =>
      cases second : lex.parse c.dest with
      | error e => simp [second, Except.isOk, Except.toBool] at dest
      | ok v =>
        exact ⟨some (u, v), by simp [parseEnds, first, second, bind, Except.bind, pure, Except.pure]⟩
  obtain ⟨es', built⟩ : ∃ es', store.build lex d = .ok es' := by
    refine build_isOk_iff.mpr ⟨accounts.known, fun row mem => ?_⟩
    have given : (store.addedIn d).get? row.1 = some row.2 :=
      (Register.mem_rows_iff (orderly.added d).nodup).mp mem
    rcases accounts.shown row.1 with ⟨_, read⟩ | ⟨c, own, isShown⟩
    · exact read row.2 given
    · obtain rfl := Option.some.inj (own.symm.trans given)
      exact ends _ (named row.1 _ given isShown)
  refine ⟨es', built, fun key => ?_⟩
  rw [get?_build orderly built key]
  rcases accounts.shown key with ⟨same, _⟩ | ⟨c, own, isShown⟩
  · exact same
  · rw [isShown, own]
    simp [overlay, named key c own isShown]

/-- Every dimension that is built shows edges that are accounted for. -/
structure Accounted (lex : Lexicon K) (store : EdgeStore K) : Prop where
  orderly : store.Orderly
  built : ∀ d, store.built.contains d = true →
    Accounts lex store d ((store.edges.get? d).getD .empty)

theorem accounted_of_unbuilt (orderly : store.Orderly) (unbuilt : store.built = []) :
    Accounted lex store :=
  ⟨orderly, fun d isBuilt => by simp [unbuilt] at isBuilt⟩

theorem Accounted.current (accounted : Accounted lex store)
    (registered : EdgeStore.current lex store d = .ok es) : Accounts lex store d es := by
  rw [current_eq] at registered
  split at registered
  next isBuilt => exact Except.ok.inj registered ▸ accounted.built d isBuilt
  next => exact accounts_of_build accounted.orderly registered

theorem Accounted.edgesOf (accounted : Accounted lex store) (d : Dimension) :
    Accounted lex ((EdgeStore.edgesOf lex d).apply store).2 := by
  obtain ⟨added, removed⟩ := marks_edgesOf lex store d
  refine ⟨(orderly_edgesOf d).invariant accounted.orderly, fun d' isBuilt => ?_⟩
  have registered := current_edgesOf lex store d d'
  rw [current_eq, if_pos isBuilt] at registered
  exact (accounted.current registered.symm).congr (by rw [addedIn, addedIn, added])
    (by rw [removedIn, removedIn, removed])

/-- The edges, additions and removals of a built dimension are edited under one key. -/
theorem Accounted.edit (accounted : Accounted lex store) {es added : Edges K}
    {removed : List EdgeKey} (key : EdgeKey)
    {store' : EdgeStore K} (orderly : store'.Orderly)
    (is : store' = { store with
      edges := store.edges.put d es
      added := store.added.put d added
      removed := store.removed.put d removed })
    (sameEdges : ∀ other, other ≠ key →
      es.get? other = ((store.edges.get? d).getD .empty).get? other)
    (sameAdded : ∀ other, other ≠ key → added.get? other = (store.addedIn d).get? other)
    (sameRemoved : ∀ other, other ≠ key → (other ∈ removed ↔ other ∈ store.removedIn d))
    (own : (es.get? key = none ∧ added.get? key = none ∧ key ∈ removed) ∨
      ∃ c, added.get? key = some c ∧ es.get? key = some c) : Accounted lex store' := by
  subst is
  refine ⟨orderly, fun d' isBuilt' => ?_⟩
  have accounts := accounted.built d' isBuilt'
  by_cases here : d = d'
  · subst here
    refine ⟨accounts.known, fun other => ?_⟩
    simp only [addedIn, removedIn, Register.get?_put_self, Option.getD_some]
    by_cases same : other = key
    · subst same
      refine own.imp ?_ id
      rintro ⟨gone, unadded, noted⟩
      simp [gone, unadded, noted, overlay]
    · rw [sameEdges other same, sameAdded other same]
      simp only [sameRemoved other same]
      exact accounts.shown other
  · have shown : ((store.edges.put d es).get? d').getD .empty =
        (store.edges.get? d').getD .empty := by simp [here]
    rw [shown]
    exact accounts.congr (by simp [addedIn, here]) (by simp [removedIn, here])

theorem Accounted.add (accounted : Accounted lex store) (src dest : String) (factor : Factor K) :
    Accounted lex ((EdgeStore.add lex src dest factor).apply store).2 := by
  have orderly : Orderly ((EdgeStore.add lex src dest factor).apply store).2 :=
    (orderly_add src dest factor).invariant accounted.orderly
  rcases add_cases lex src dest factor store with
    refused | ⟨_, _, d, es, built, c, _, _, _, _, _, edges, _, run⟩
  · exact refused.keeps accounted accounted.edgesOf
  · have before := accounted.edgesOf d
    rw [edges] at before
    rw [run] at orderly ⊢
    obtain ⟨-, rfl⟩ := built_of_edgesOf edges
    refine before.edit (c.src, c.dest) orderly rfl (fun other differ => ?_)
      (fun other differ => ?_) (fun other differ => ?_) (.inr ⟨c, ?_, ?_⟩)
    · rw [Register.get?_put, if_neg (Ne.symm differ)]
    · rw [Register.get?_put, if_neg (Ne.symm differ)]
    · simp [differ]
    · exact Register.get?_put_self _ _ _
    · exact Register.get?_put_self _ _ _

theorem Accounted.remove (accounted : Accounted lex store) (src dest : String) :
    Accounted lex ((EdgeStore.remove lex src dest).apply store).2 := by
  have orderly : Orderly ((EdgeStore.remove lex src dest).apply store).2 :=
    (orderly_remove src dest).invariant accounted.orderly
  rcases remove_cases lex src dest store with refused | ⟨d, key, es, built, _, edges, run⟩
  · exact refused.keeps accounted accounted.edgesOf
  · have before := accounted.edgesOf d
    rw [edges] at before
    rw [run] at orderly ⊢
    obtain ⟨-, rfl⟩ := built_of_edgesOf edges
    refine before.edit key orderly rfl (fun other differ => ?_) (fun other differ => ?_)
      (fun other differ => ?_) (.inl ⟨?_, ?_, ?_⟩)
    · rw [Register.get?_erase, if_neg (Ne.symm differ)]
    · rw [Register.get?_erase, if_neg (Ne.symm differ)]
    · rw [mem_noted]
      simp [differ]
    · rw [Register.get?_erase, if_pos rfl]
    · rw [Register.get?_erase, if_pos rfl]
    · exact mem_noted.mpr (.inl rfl)

end EdgeStore

end Metrology
