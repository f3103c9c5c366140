import Metrology.Proofs.Graph.Accounting
import Metrology.Proofs.Session.Persistence
import Metrology.Proofs.Session.Refusal

/-!
# Calls that fail

A call of the registry of conversions that fails is not noticed by any later reading, and a dimension
whose edges cannot be built shows none of them until the units change. Where the caller's edges can be
read, the edges of a dimension come back once a unit is taken out that could not be built with.
-/
namespace Metrology

variable {K : Type} [Scalar K]

namespace EdgeStore

variable {lex : Lexicon K} {store store' : EdgeStore K} {d : Dimension} {e : Error}

/-! ### Readings -/

/-- What is registered between two units of a dimension. -/
def single (lex : Lexicon K) (store : EdgeStore K) (d : Dimension) (src dest : String) :
    Except Error (Option (Conversion K)) :=
  ((find? lex d src dest).apply store).1

theorem single_eq (lex : Lexicon K) (store : EdgeStore K) (d : Dimension) (src dest : String) :
    single lex store d src dest = (current lex store d).map fun es => es.get? (src, dest) := by
  rw [single, find?, Action.apply_bind, current]
  rcases (edgesOf lex d).apply store with ⟨_ | _, _⟩ <;> rfl

/-- Every reading of one store gives what it gives of the other. -/
structure ReadsAlike (lex : Lexicon K) (store store' : EdgeStore K) : Prop where
  edges : ∀ d, current lex store' d = current lex store d
  single : ∀ d src dest, single lex store' d src dest = single lex store d src dest

theorem readsAlike_of_sameEdges (same : SameEdges lex store store') : ReadsAlike lex store store' :=
  ⟨same, fun d src dest => by rw [single_eq, single_eq, same d]⟩

/-- A call of the registry of conversions. -/
inductive Access (K : Type) where
  | add (src dest : String) (factor : Factor K)
  | remove (src dest : String)
  | single (d : Dimension) (src dest : String)
  | edges (d : Dimension)

/-- What a call does, its answer left aside. -/
def Access.action (lex : Lexicon K) : Access K → Action (EdgeStore K) PUnit
  | add src dest factor => do
    let _ ← EdgeStore.add lex src dest factor
    return ⟨⟩
  | remove src dest => do
    let _ ← EdgeStore.remove lex src dest
    return ⟨⟩
  | single d src dest => do
    let _ ← find? lex d src dest
    return ⟨⟩
  | edges d => do
    let _ ← edgesOf lex d
    return ⟨⟩

/-- A call that fails has at most built the edges of a dimension. -/
theorem Access.refused {call : Access K}
    (failed : (call.action lex).apply store = (.error e, store')) :
    store' = store ∨ ∃ d, store' = ((edgesOf lex d).apply store).2 := by
  have looking {α : Type} {a : Action (EdgeStore K) α}
      (looks : Refused lex store (a.apply store) ∨ ∃ x, (a.apply store).1 = .ok x)
      (failed : (do let _ ← a; return ⟨⟩ : Action (EdgeStore K) PUnit).apply store = (.error e, store')) :
      store' = store ∨ ∃ d, store' = ((edgesOf lex d).apply store).2 := by
    rw [Session.apply_discard] at failed
    obtain ⟨left, rfl⟩ := Prod.mk.inj failed
    rcases looks with refused | ⟨x, given⟩
    · exact refused.2
    · simp [given, Except.map] at left
  cases call with
  | add src dest factor =>
    refine looking ((add_cases lex src dest factor store).imp_right ?_) failed
    rintro ⟨_, _, _, _, _, c, _, _, _, _, _, _, _, run⟩
    exact ⟨c, by rw [run]⟩
  | remove src dest =>
    refine looking ((remove_cases lex src dest store).imp_right ?_) failed
    rintro ⟨_, key, es, _, _, _, run⟩
    exact ⟨es.get? key, by rw [run]⟩
  | single d src dest =>
    refine .inr ⟨d, ?_⟩
    rw [action, Session.apply_discard, find?, Action.apply_bind] at failed
    rcases run : (edgesOf lex d).apply store with ⟨_ | _, _⟩
    · rw [run] at failed
      exact (Prod.mk.inj failed).2.symm
    · rw [run] at failed
      cases (Prod.mk.inj failed).1
  | edges d =>
    rw [action, Session.apply_discard] at failed
    exact .inr ⟨d, (Prod.mk.inj failed).2.symm⟩

/-- No reading notices that edges were built, be it at once or after a reloading. -/
theorem readsAlike_of_refused
    (refused : store' = store ∨ ∃ d, store' = ((edgesOf lex d).apply store).2) :
    ReadsAlike lex store store' ∧ ReadsAlike lex store.reload store'.reload := by
  rcases refused with rfl | ⟨d, rfl⟩
  · exact ⟨readsAlike_of_sameEdges fun _ => rfl, readsAlike_of_sameEdges fun _ => rfl⟩
  · refine ⟨readsAlike_of_sameEdges (current_edgesOf lex store d),
      readsAlike_of_sameEdges fun d' => ?_⟩
    obtain ⟨added, removed⟩ := marks_edgesOf lex store d
    rw [current_of_unbuilt rfl, current_of_unbuilt rfl]
    refine build_congr ?_ ?_
    · simp only [addedIn, reload, added]
    · simp only [removedIn, reload, removed]

/-! ### Dimensions that cannot be built -/

theorem unbuilt_of_error (failed : current lex store d = .error e) :
    store.built.contains d = false ∧ store.build lex d = .error e := by
  rw [current_eq] at failed
  split at failed
  next => cases failed
  next unbuilt => exact ⟨Bool.not_eq_true _ ▸ unbuilt, failed⟩

theorem current_reload_error (failed : current lex store d = .error e) :
    current lex store.reload d = .error e := by
  rw [current_of_unbuilt rfl, ← (unbuilt_of_error failed).2]
  exact build_congr rfl rfl

/-- The edges of every dimension are read as before, or could be built and still can. -/
def EditsBuilt (lex : Lexicon K) (store store' : EdgeStore K) : Prop :=
  ∀ d, current lex store' d = current lex store d ∨
    ∃ es es', current lex store d = .ok es ∧ current lex store' d = .ok es'

theorem EditsBuilt.error (edits : EditsBuilt lex store store') (failed : current lex store d = .error e) :
    current lex store' d = .error e := by
  rcases edits d with same | ⟨es, _, given, _⟩
  · exact same.trans failed
  · cases failed.symm.trans given

theorem EditsBuilt.isOk (edits : EditsBuilt lex store store')
    (isOk : ∃ es, current lex store d = .ok es) : ∃ es, current lex store' d = .ok es := by
  rcases edits d with same | ⟨_, es', _, given⟩
  · rwa [same]
  · exact ⟨es', given⟩

/-- An edge is added or taken out only where the edges can be built. -/
theorem editsBuilt_of_edit {es es' : Edges K} {built : EdgeStore K}
    (given : (edgesOf lex d).apply store = (.ok es, built))
    (edited : ∀ e, current lex store' e = if d = e then .ok es' else current lex built e) :
    EditsBuilt lex store store' := by
  intro e
  rw [edited e]
  split
  next here =>
    subst here
    exact .inr ⟨es, es', by rw [current, given], rfl⟩
  next => exact .inl (by rw [← current_edgesOf lex store d e, given])

theorem editsBuilt_add (src dest : String) (factor : Factor K) :
    EditsBuilt lex store ((add lex src dest factor).apply store).2 := by
  rcases add_cases lex src dest factor store with
    refused | ⟨_, _, d, es, built, c, _, _, _, _, _, given, _, run⟩
  · exact fun d => .inl ((readsAlike_of_refused refused.2).1.edges d)
  · rw [run]
    exact editsBuilt_of_edit given (current_keep (built_of_edgesOf given).1 es c)

theorem editsBuilt_remove (src dest : String) :
    EditsBuilt lex store ((remove lex src dest).apply store).2 := by
  rcases remove_cases lex src dest store with refused | ⟨d, key, es, built, _, given, run⟩
  · exact fun d => .inl ((readsAlike_of_refused refused.2).1.edges d)
  · rw [run]
    exact editsBuilt_of_edit given (current_drop (built_of_edgesOf given).1 es key)

/-- The call reads or writes edges of the dimension. -/
def Access.Concerns (lex : Lexicon K) (d : Dimension) : Access K → Prop
  | add src _ _ => ∃ u, lex.parse src = .ok u ∧ u.dimension = .ok d
  | remove src dest => ∃ key, removal lex src dest = .ok (d, key)
  | single d' _ _ | edges d' => d' = d

/-- No call gets at edges that cannot be built. -/
theorem Access.fails {call : Access K} (concerns : call.Concerns lex d)
    (failed : current lex store d = .error e) :
    ∃ e', ((call.action lex).apply store).1 = .error e' := by
  have unbuildable {es : Edges K} {built : EdgeStore K}
      (edges : (edgesOf lex d).apply store = (.ok es, built)) : False := by
    rw [current, edges] at failed
    cases failed
  cases call with
  | add src dest factor =>
    obtain ⟨u, read, given⟩ := concerns
    rw [action, Session.apply_discard]
    rcases add_cases lex src dest factor store with
      ⟨⟨e', refused⟩, _⟩ | ⟨u', _, d', es, built, c, read', _, given', _, _, edges, _⟩
    · exact ⟨e', by rw [refused]; rfl⟩
    · obtain rfl := Except.ok.inj (read.symm.trans read')
      obtain rfl := Except.ok.inj (given.symm.trans given')
      exact (unbuildable edges).elim
  | remove src dest =>
    obtain ⟨key, removes⟩ := concerns
    rw [action, Session.apply_discard]
    rcases remove_cases lex src dest store with
      ⟨⟨e', refused⟩, _⟩ | ⟨d', key', es, built, removes', edges, _⟩
    · exact ⟨e', by rw [refused]; rfl⟩
    · obtain ⟨rfl, _⟩ := Prod.mk.inj (Except.ok.inj (removes.symm.trans removes'))
      exact (unbuildable edges).elim
  | single d' src dest =>
    obtain rfl := concerns
    refine ⟨e, ?_⟩
    rw [action, Session.apply_discard]
    show (EdgeStore.single lex store d' src dest).map _ = _
    rw [single_eq, failed]
    rfl
  | edges d' =>
    obtain rfl := concerns
    refine ⟨e, ?_⟩
    rw [action, Session.apply_discard]
    show (current lex store d').map _ = _
    rw [failed]
    rfl

end EdgeStore

namespace Session

variable {s t : Session K} {d : Dimension} {e : Error}

/-! ### Operations that leave the units -/

/-- No operation changes the units or the prefixes. -/
def Unaltered : List (Operation K) → Session K → Prop
  | [], _ => True
  | operation :: rest, s =>
    (operation.after s).lexicon = s.lexicon ∧ Unaltered rest (operation.after s)

/-- What an operation does to the store. -/
theorem Operation.store_after (operation : Operation K) (s : Session K) :
    (operation.after s).store = s.store ∨ (operation.after s).store = s.store.reload ∨
    (∃ q, operation = .step (.deed (.ask q))) ∨
    (∃ src dest factor, (operation.after s).store =
      ((EdgeStore.add s.lexicon src dest factor).apply s.store).2) ∨
    ∃ src dest, (operation.after s).store =
      ((EdgeStore.remove s.lexicon src dest).apply s.store).2 := by
  match operation with
  | .step .reload => exact .inr (.inl rfl)
  | .step (.deed (.ask q)) => exact .inr (.inr (.inl ⟨q, rfl⟩))
  | .step (.deed (.change c)) =>
    have run := c.comesTo s
    rw [Operation.after, Step.after, Deed.after]
    generalize c.action.apply s = outcome at run ⊢
    cases run with
    | unitRefused | systemHalted => exact .inl rfl
    | unitAdded | unitRemoved | systemLoaded => exact .inr (.inl rfl)
    | edgeRefused src dest factor edit | edgeAdded src dest factor edit =>
      exact .inr (.inr (.inr (.inl ⟨src, dest, factor, (congrArg Prod.snd edit).symm⟩)))
    | removalRefused src dest edit | edgeRemoved src dest edit =>
      exact .inr (.inr (.inr (.inr ⟨src, dest, (congrArg Prod.snd edit).symm⟩)))
  | .registerUnit u =>
    rw [Operation.after, registerUnit_apply]
    cases s.lexicon.add u <;> exact .inl rfl
  | .unregisterUnit _ | .registerSystem _ | .addType _ | .forget => exact .inl rfl
  | .registerConversion src dest factor => exact .inr (.inr (.inr (.inl ⟨src, dest, factor, rfl⟩)))
  | .unregisterConversion src dest => exact .inr (.inr (.inr (.inr ⟨src, dest, rfl⟩)))
  | .addPrefix p =>
    rw [Operation.after, addPrefix_apply]
    cases s.lexicon.prefixes.add p <;> exact .inl rfl

/-- A dimension that cannot be built still cannot after an operation that leaves the units. -/
theorem registered_error_after {operation : Operation K}
    (same : (operation.after s).lexicon = s.lexicon) (failed : registered s d = .error e) :
    registered (operation.after s) d = .error e := by
  rw [registered, same]
  rcases operation.store_after s with
    store | store | ⟨q, rfl⟩ | ⟨src, dest, factor, store⟩ | ⟨src, dest, store⟩
  · rw [store]
    exact failed
  · rw [store]
    exact EdgeStore.current_reload_error failed
  · exact (((SameRegistries.refl s).ask q).edges d).trans failed
  · rw [store]
    exact (EdgeStore.editsBuilt_add src dest factor).error failed
  · rw [store]
    exact (EdgeStore.editsBuilt_remove src dest).error failed

theorem registered_error_operated {operations : List (Operation K)} (unaltered : Unaltered operations s)
    (failed : registered s d = .error e) : registered (operated operations s) d = .error e := by
  induction operations generalizing s with
  | nil => exact failed
  | cons operation rest ih => exact ih unaltered.2 (registered_error_after unaltered.1 failed)

/-! ### Runs of changes that are made -/

/-- The lexicon is consistent, and what is shown of every dimension is accounted for. -/
structure Accounted (s : Session K) : Prop where
  consistent : s.lexicon.Consistent
  store : EdgeStore.Accounted s.lexicon s.store

theorem accounted_ofSystems {systems : List MeasurementSystem} (made : ofSystems systems = .ok s) :
    s.Accounted where
  consistent := (consistent_ofSystems made).1
  store := by
    rw [(blank_of_ofSystems made).1]
    exact EdgeStore.accounted_of_unbuilt EdgeStore.orderly_empty rfl

theorem Accounted.deed (accounted : s.Accounted) {deed : Deed K} (returns : deed.Returns s) :
    (deed.after s).Accounted := by
  refine ⟨consistent_operation accounted.consistent (.step (.deed deed)), ?_⟩
  have reloaded (lex : Lexicon K) : EdgeStore.Accounted lex s.store.reload :=
    EdgeStore.accounted_of_unbuilt accounted.store.orderly.reload rfl
  match deed with
  | .ask q =>
    obtain ⟨lexicon, kept⟩ := registries_ask (fun d _ held => held.edgesOf d) accounted.store q
    exact lexicon ▸ kept
  | .change c =>
    have run := c.comesTo s
    rw [Deed.Returns] at returns
    rw [Deed.after]
    generalize c.action.apply s = outcome at run returns ⊢
    cases run with
    | unitRefused => exact accounted.store
    | unitAdded | unitRemoved | systemLoaded => exact reloaded _
    | systemHalted => cases returns
    | edgeRefused src dest factor edit | edgeAdded src dest factor edit =>
      have kept := accounted.store.add src dest factor
      rw [edit] at kept
      exact kept
    | removalRefused src dest edit | edgeRemoved src dest edit =>
      have kept := accounted.store.remove src dest
      rw [edit] at kept
      exact kept

theorem Accounted.perform (accounted : s.Accounted) {deeds : List (Deed K)}
    (returns : Returns deeds s) : (Session.perform deeds s).Accounted := by
  induction deeds generalizing s with
  | nil => exact accounted
  | cons deed rest ih => exact ih (accounted.deed returns.1) returns.2

/-- The unit was registered, questions were asked, and it was taken out again: what building then
gives is what it gave before, unless the unit had been registered already. -/
theorem Accounted.restored (accounted : s.Accounted) {u : NamedUnit K} {symbol : String}
    (own : symbol ∈ u.symbols) {lex : Lexicon K} (added : s.lexicon.add u = .ok lex)
    (failed : registered (refresh { s with lexicon := lex }) d = .error e)
    (unlike : ∀ v, s.lexicon.find? u.asciiSymbol = some v → v = u) {es : Edges K}
    (builds : s.store.build s.lexicon d = .ok es) :
    s.store.build (lex.remove symbol).2 d = .ok es := by
  cases taken : s.lexicon.find? u.asciiSymbol with
  | none =>
    obtain ⟨units, parse⟩ := accounted.consistent.remove_added taken added own
    rw [EdgeStore.build_of_units units parse, builds]
  | some v =>
    obtain rfl := unlike v taken
    obtain ⟨units, parse⟩ := accounted.consistent.add_registered taken added
    have anew : registered (refresh { s with lexicon := lex }) d = s.store.build lex d :=
      EdgeStore.current_of_unbuilt rfl
    rw [anew, EdgeStore.build_of_units units parse, builds] at failed
    cases failed

/-- **Calls that fail leave no trace.** A session is made from any systems, and then units and
conversions are registered and taken out, systems loaded and questions asked, each change being made.

A call of the registry of conversions that fails is noticed by no reading of any dimension, be it at
once or after a reloading, and leaves the rest of the session. A dimension whose edges cannot be built
gives that error, and no edge, after any operations that leave the units and prefixes. Where a unit
makes a dimension fail, the edges it showed before come back once the unit is taken out, with questions
in between, if the caller's edges among them can be read. -/
theorem failing_calls_undone {systems : List MeasurementSystem} (made : ofSystems systems = .ok s)
    {deeds : List (Deed K)} (returns : Returns deeds s) (run : perform deeds s = t) :
    (∀ (call : EdgeStore.Access K) e t', (onStore call.action).apply t = (.error e, t') →
      t' = { t with store := t'.store } ∧ EdgeStore.ReadsAlike t.lexicon t.store t'.store ∧
      EdgeStore.ReadsAlike t.lexicon t.store.reload t'.store.reload) ∧
    (∀ d e operations, registered t d = .error e → Unaltered operations t →
      let later := operated operations t
      registered later d = .error e ∧
      (∀ src dest, EdgeStore.single later.lexicon later.store d src dest = .error e) ∧
      ∀ call : EdgeStore.Access K, call.Concerns later.lexicon d →
        ∃ e', ((onStore call.action).apply later).1 = .error e') ∧
    ∀ d es u e (asked : List (Query K)) symbol, registered t d = .ok es → symbol ∈ u.symbols →
      ((addUnit u).apply t).1 = .ok ⟨⟩ → registered ((addUnit u).apply t).2 d = .error e →
      (∀ v, t.lexicon.find? u.asciiSymbol = some v → v = u) →
      (∀ key c, (t.store.addedIn d).get? key = some c → es.get? key = some c →
        EdgeStore.isNamed t.lexicon c = true) →
      ∃ es', registered ((removeUnit symbol).apply
          (perform (asked.map .ask) ((addUnit u).apply t).2)).2 d = .ok es' ∧
        EdgeStore.Alike es es' := by
  subst run
  have accounted := (accounted_ofSystems made).perform returns
  generalize perform deeds s = t at accounted ⊢
  refine ⟨fun call e t' failed => ?_, fun d e operations failed unaltered => ?_,
    fun d es u e asked symbol shown own adds failed unlike named => ?_⟩
  · rw [apply_onStore] at failed
    obtain ⟨error, rfl⟩ := Prod.mk.inj failed
    exact ⟨rfl, EdgeStore.readsAlike_of_refused (EdgeStore.Access.refused (Prod.ext error rfl))⟩
  · have still := registered_error_operated unaltered failed
    refine ⟨still, fun src dest => ?_, fun call concerns => EdgeStore.Access.fails concerns still⟩
    rw [EdgeStore.single_eq]
    exact congrArg (Except.map _) still
  · obtain ⟨es', builds, alike⟩ :=
      (accounted.store.current shown).build accounted.store.orderly named
    refine ⟨es', ?_, alike⟩
    rw [addUnit_apply] at adds failed ⊢
    cases added : t.lexicon.add u with
    | error e' => simp [added] at adds
    | ok lex =>
      simp only [added] at failed ⊢
      have asking := sameRegistries_asked asked (refresh { t with lexicon := lex })
      generalize perform (asked.map .ask) (refresh { t with lexicon := lex }) = r at asking
      obtain ⟨lexicon, _, marked, unmarked, _⟩ := asking
      rw [removeUnit_apply, lexicon]
      have anew : registered (refresh { r with lexicon := (lex.remove symbol).2 }) d =
          t.store.build (lex.remove symbol).2 d := by
        rw [registered, EdgeStore.current_of_unbuilt rfl]
        refine EdgeStore.build_congr ?_ ?_
        · exact congrArg (fun added => (Register.get? added d).getD .empty) marked
        · exact congrArg (fun removed => (Register.get? removed d).getD []) unmarked
      exact anew.trans (accounted.restored own added failed unlike builds)

/-- A length with an expansion that cannot be read. -/
def blur : NamedUnit ℚ :=
  ⟨"Blur", "blur", "blur", none, .ofAxis .length, 0, [], some "p//px", 1, none⟩

/-- The pixels of the points. -/
def pixelated : Session ℚ := perform [adding "px" "p" ⟨1/2, 0⟩] typographer

/-- The blur makes the lengths fail, and once it is taken out they show the pixels again. -/
theorem pixels_come_back :
    ∃ es e es', registered pixelated (.ofAxis .length) = .ok es ∧
      es.get? ("px", "p") = some ⟨"L", "px", "p", ⟨1/2, 0⟩⟩ ∧
      registered ((addUnit blur).apply pixelated).2 (.ofAxis .length) = .error e ∧
      registered ((removeUnit "blur").apply ((addUnit blur).apply pixelated).2).2
        (.ofAxis .length) = .ok es' ∧ EdgeStore.Alike es es' := by
  have made : ((Change.addConversion "px" "p" ⟨1/2, 0⟩).action.apply typographer).1 = .ok ⟨⟩ ∧
      (registered pixelated (.ofAxis .length)).toOption.map (·.get? ("px", "p")) =
        some (some ⟨"L", "px", "p", ⟨1/2, 0⟩⟩) ∧
      (∀ row ∈ (pixelated.store.addedIn (.ofAxis .length)).rows,
        EdgeStore.isNamed pixelated.lexicon row.2 = true) ∧
      pixelated.lexicon.find? "blur" = none ∧ ((addUnit blur).apply pixelated).1 = .ok ⟨⟩ ∧
      (registered ((addUnit blur).apply pixelated).2 (.ofAxis .length)).isOk = false := by
    decide +kernel
  obtain ⟨added, shown, named, fresh, adds, blurred⟩ := made
  have returns : Returns [adding "px" "p" ⟨1/2, 0⟩] typographer := ⟨added, trivial⟩
  obtain ⟨es, before, edge⟩ := exists_ok_of_map_eq_some shown
  obtain ⟨e, between⟩ := exists_error_of_isOk blurred
  obtain ⟨es', after, alike⟩ := (failing_calls_undone ofSystems_typographer returns rfl).2.2
    (.ofAxis .length) es blur e [] "blur" before (NamedUnit.mem_symbols _ (.inl rfl)) adds between
    (fun v found => absurd (fresh.symm.trans found) (Option.some_ne_none v).symm)
    fun key c isAdded _ => named (key, c) (Register.mem_rows_of_get? isAdded)
  exact ⟨es, e, es', before, edge, between, after, alike⟩

/-- The quarto is registered and related to the point. -/
def relatingQuarto : List (Deed ℚ) := [.change (.addUnit quarto), adding "quarto" "p" ⟨2, 0⟩]

/-- The edge of the quarto is shown before the blur is registered, and not once it is taken out. -/
theorem quarto_does_not_come_back :
    let before := perform relatingQuarto typographer
    let blurred := ((addUnit blur).apply before).2
    ofSystems [.typography] = .ok typographer ∧ Returns relatingQuarto typographer ∧
      (registered before (.ofAxis .length)).isOk = true ∧
      ((addUnit blur).apply before).1 = .ok ⟨⟩ ∧
      (registered blurred (.ofAxis .length)).isOk = false ∧
      ¬ EdgeStore.SameMap (registered before (.ofAxis .length))
        (registered ((removeUnit "blur").apply blurred).2 (.ofAxis .length)) := by
  intro before blurred
  have run : ((Change.addUnit quarto).action.apply typographer).1 = .ok ⟨⟩ ∧
      ((Change.addConversion "quarto" "p" ⟨2, 0⟩).action.apply
        (Deed.after typographer (.change (.addUnit quarto)))).1 = .ok ⟨⟩ ∧
      (registered before (.ofAxis .length)).toOption.map (·.get? ("q7", "p")) =
        some (some ⟨"L", "q7", "p", ⟨2, 0⟩⟩) ∧
      (registered before (.ofAxis .length)).isOk = true ∧
      ((addUnit blur).apply before).1 = .ok ⟨⟩ ∧
      (registered blurred (.ofAxis .length)).isOk = false ∧
      (registered ((removeUnit "blur").apply blurred).2 (.ofAxis .length)).toOption.map
        (·.get? ("q7", "p")) = some none := by decide +kernel
  obtain ⟨first, second, shown, shows, adds, fails, lost⟩ := run
  exact ⟨ofSystems_typographer, ⟨first, second, trivial⟩, shows, adds, fails,
    EdgeStore.not_sameMap shown lost nofun⟩

end Session

end Metrology
