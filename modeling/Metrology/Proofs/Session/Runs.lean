import Metrology.Proofs.Graph.Keys
import Metrology.Proofs.Session.Asking

/-!
# Runs of a session

The registries of a session are changed and it is asked, in any order. A change that is made has the
session forget all it remembers, so what it remembers was found since the last change.
-/
namespace Metrology.Session

variable {K : Type} [Scalar K]

/-- A change of the registries. -/
inductive Change (K : Type) where
  | addUnit (u : NamedUnit K)
  | removeUnit (symbol : String)
  | loadSystem (system : MeasurementSystem)
  | addConversion (src dest : String) (factor : Factor K)
  | removeConversion (src dest : String)

/-- Making a change, its answer left aside. -/
def Change.action : Change K → Action (Session K) PUnit
  | addUnit u => Session.addUnit u
  | removeUnit symbol => do
    let _ ← Session.removeUnit symbol
    return ⟨⟩
  | loadSystem system => do
    let _ ← Session.loadSystem system
    return ⟨⟩
  | addConversion src dest factor => do
    let _ ← Session.addConversion src dest factor
    return ⟨⟩
  | removeConversion src dest => do
    let _ ← Session.removeConversion src dest
    return ⟨⟩

/-- What happens to a session. -/
inductive Deed (K : Type) where
  | change (c : Change K)
  | ask (q : Query K)

/-- The session after a deed, whether it succeeded or not. -/
def Deed.after (s : Session K) : Deed K → Session K
  | change c => (c.action.apply s).2
  | ask q => q.after s

/-- A change is made, not refused. Questions may fail. -/
def Deed.Returns (s : Session K) : Deed K → Prop
  | change c => (c.action.apply s).1 = .ok ⟨⟩
  | ask _ => True

/-- The session after one deed after the other. -/
def perform (deeds : List (Deed K)) (s : Session K) : Session K := deeds.foldl Deed.after s

/-- Every change of a run is made. -/
def Returns : List (Deed K) → Session K → Prop
  | [], _ => True
  | deed :: rest, s => deed.Returns s ∧ Returns rest (deed.after s)

theorem perform_append (first second : List (Deed K)) (s : Session K) :
    perform (first ++ second) s = perform second (perform first s) :=
  List.foldl_append

theorem returns_append {first second : List (Deed K)} {s : Session K} :
    Returns (first ++ second) s ↔ Returns first s ∧ Returns second (perform first s) := by
  induction first generalizing s with
  | nil => simp [Returns, perform]
  | cons deed rest ih => simp [Returns, ih, and_assoc, perform]

/-- Nothing is remembered. -/
structure Forgotten (s : Session K) : Prop where
  charts : s.charts = .empty
  baseFactors : s.baseFactors = .empty

omit [Scalar K] in
theorem Forgotten.chart {s : Session K} (forgotten : s.Forgotten) (d : Dimension) :
    s.chart d = .blank := by
  rw [Session.chart, forgotten.charts]
  rfl

/-- A session that was just made has no conversions yet and remembers nothing. -/
theorem blank_of_ofSystems {systems : List MeasurementSystem} {s : Session K}
    (made : ofSystems systems = .ok s) : s.store = .empty ∧ s.Forgotten := by
  obtain ⟨store, charts, baseFactors⟩ := untouched_ofSystems made
  exact ⟨store, charts, baseFactors⟩

/-! ### What changes come to -/

theorem addUnit_apply (u : NamedUnit K) (s : Session K) :
    (addUnit u).apply s =
      match s.lexicon.add u with
      | .ok lex => (.ok ⟨⟩, refresh { s with lexicon := lex })
      | .error e => (.error e, s) := by
  rw [addUnit, registerUnit, onLexicon, Action.apply_bind, Action.onPart, Action.apply_ofFn,
    Action.apply_bind, Action.apply_get]
  dsimp only
  rw [Action.apply_bind, Action.apply_lift]
  cases s.lexicon.add u <;> rfl

omit [Scalar K] in
theorem removeUnit_apply (symbol : String) (s : Session K) :
    (removeUnit symbol).apply s =
      (.ok (s.lexicon.remove symbol).1, refresh { s with lexicon := (s.lexicon.remove symbol).2 }) := by
  rw [removeUnit, unregisterUnit, onLexicon, Action.apply_bind, Action.onPart, Action.apply_ofFn,
    Action.apply_bind, Action.apply_get]
  rfl

theorem loadSystem_apply (system : MeasurementSystem) (s : Session K) :
    (loadSystem system).apply s =
      match (Lexicon.loadSystem system).apply s.lexicon with
      | (.ok added, lex) => (.ok added, refresh { s with lexicon := lex })
      | (.error e, lex) => (.error e, { s with lexicon := lex }) := by
  rw [loadSystem, onLexicon, Action.apply_bind, Action.onPart, Action.apply_ofFn]
  rcases (Lexicon.loadSystem system).apply s.lexicon with ⟨_ | _, lex⟩ <;> rfl

theorem addConversion_apply (src dest : String) (factor : Factor K) (s : Session K) :
    (addConversion src dest factor).apply s =
      match (EdgeStore.add s.lexicon src dest factor).apply s.store with
      | (.ok c, store) => (.ok c, forget { s with store := store })
      | (.error e, store) => (.error e, { s with store := store }) := by
  rw [addConversion, Action.apply_bind, apply_onStore]
  rcases (EdgeStore.add s.lexicon src dest factor).apply s.store with ⟨_ | _, store⟩ <;> rfl

theorem removeConversion_apply (src dest : String) (s : Session K) :
    (removeConversion src dest).apply s =
      match (EdgeStore.remove s.lexicon src dest).apply s.store with
      | (.ok c, store) => (.ok c, forget { s with store := store })
      | (.error e, store) => (.error e, { s with store := store }) := by
  rw [removeConversion, Action.apply_bind, apply_onStore]
  rcases (EdgeStore.remove s.lexicon src dest).apply s.store with ⟨_ | _, store⟩ <;> rfl

theorem lexicon_addConversion (src dest : String) (factor : Factor K) (s : Session K) :
    ((addConversion src dest factor).apply s).2.lexicon = s.lexicon := by
  rw [addConversion_apply]
  rcases (EdgeStore.add s.lexicon src dest factor).apply s.store with ⟨_ | _, store⟩ <;> rfl

/-- What the store was left as stays, also where the conversion is refused. -/
theorem store_addConversion (src dest : String) (factor : Factor K) (s : Session K) :
    ((addConversion src dest factor).apply s).2.store =
      ((EdgeStore.add s.lexicon src dest factor).apply s.store).2 := by
  rw [addConversion_apply]
  rcases (EdgeStore.add s.lexicon src dest factor).apply s.store with ⟨_ | _, store⟩ <;> rfl

theorem lexicon_removeConversion (src dest : String) (s : Session K) :
    ((removeConversion src dest).apply s).2.lexicon = s.lexicon := by
  rw [removeConversion_apply]
  rcases (EdgeStore.remove s.lexicon src dest).apply s.store with ⟨_ | _, store⟩ <;> rfl

theorem store_removeConversion (src dest : String) (s : Session K) :
    ((removeConversion src dest).apply s).2.store =
      ((EdgeStore.remove s.lexicon src dest).apply s.store).2 := by
  rw [removeConversion_apply]
  rcases (EdgeStore.remove s.lexicon src dest).apply s.store with ⟨_ | _, store⟩ <;> rfl

omit [Scalar K] in
/-- Leaving the answer of an action aside. -/
theorem apply_discard {σ α : Type} (a : Action σ α) (s : σ) :
    (do let _ ← a; return ⟨⟩ : Action σ PUnit).apply s =
      ((a.apply s).1.map fun _ => ⟨⟩, (a.apply s).2) := by
  rw [Action.apply_bind]
  rcases a.apply s with ⟨_ | _, t⟩ <;> rfl

/-- What a change comes to. A unit that is refused leaves the session as it was, and so does an edge
that is, but for the edges that were built for it; a loading that stops leaves the units before. What
is made has everything forgotten. -/
inductive Change.ComesTo (s : Session K) : Change K → Except Error PUnit × Session K → Prop
  | unitRefused {u : NamedUnit K} {e : Error} (refused : s.lexicon.add u = .error e) :
      ComesTo s (.addUnit u) (.error e, s)
  | unitAdded {u : NamedUnit K} {lex : Lexicon K} (added : s.lexicon.add u = .ok lex) :
      ComesTo s (.addUnit u) (.ok ⟨⟩, refresh { s with lexicon := lex })
  | unitRemoved (symbol : String) : ComesTo s (.removeUnit symbol)
      (.ok ⟨⟩, refresh { s with lexicon := (s.lexicon.remove symbol).2 })
  | systemHalted {system : MeasurementSystem} {e : Error} {lex : Lexicon K}
      (loading : (Lexicon.loadSystem system).apply s.lexicon = (.error e, lex)) :
      ComesTo s (.loadSystem system) (.error e, { s with lexicon := lex })
  | systemLoaded {system : MeasurementSystem} {n : Nat} {lex : Lexicon K}
      (loading : (Lexicon.loadSystem system).apply s.lexicon = (.ok n, lex)) :
      ComesTo s (.loadSystem system) (.ok ⟨⟩, refresh { s with lexicon := lex })
  | edgeRefused (src dest : String) (factor : Factor K) {e : Error} {store : EdgeStore K}
      (edit : (EdgeStore.add s.lexicon src dest factor).apply s.store = (.error e, store)) :
      ComesTo s (.addConversion src dest factor) (.error e, { s with store := store })
  | edgeAdded (src dest : String) (factor : Factor K) {c : Conversion K} {store : EdgeStore K}
      (edit : (EdgeStore.add s.lexicon src dest factor).apply s.store = (.ok c, store)) :
      ComesTo s (.addConversion src dest factor) (.ok ⟨⟩, forget { s with store := store })
  | removalRefused (src dest : String) {e : Error} {store : EdgeStore K}
      (edit : (EdgeStore.remove s.lexicon src dest).apply s.store = (.error e, store)) :
      ComesTo s (.removeConversion src dest) (.error e, { s with store := store })
  | edgeRemoved (src dest : String) {c : Option (Conversion K)} {store : EdgeStore K}
      (edit : (EdgeStore.remove s.lexicon src dest).apply s.store = (.ok c, store)) :
      ComesTo s (.removeConversion src dest) (.ok ⟨⟩, forget { s with store := store })

theorem Change.comesTo (c : Change K) (s : Session K) : c.ComesTo s (c.action.apply s) := by
  cases c with
  | addUnit u =>
    rw [action, addUnit_apply]
    cases added : s.lexicon.add u with
    | error e => exact .unitRefused added
    | ok lex => exact .unitAdded added
  | removeUnit symbol =>
    rw [action, apply_discard, removeUnit_apply]
    exact .unitRemoved symbol
  | loadSystem system =>
    rw [action, apply_discard, loadSystem_apply]
    rcases loading : (Lexicon.loadSystem system).apply s.lexicon with ⟨_ | _, lex⟩
    · exact .systemHalted loading
    · exact .systemLoaded loading
  | addConversion src dest factor =>
    rw [action, apply_discard, addConversion_apply]
    rcases edit : (EdgeStore.add s.lexicon src dest factor).apply s.store with ⟨_ | _, store⟩
    · exact .edgeRefused src dest factor edit
    · exact .edgeAdded src dest factor edit
  | removeConversion src dest =>
    rw [action, apply_discard, removeConversion_apply]
    rcases edit : (EdgeStore.remove s.lexicon src dest).apply s.store with ⟨_ | _, store⟩
    · exact .removalRefused src dest edit
    · exact .edgeRemoved src dest edit

/-- A change that is made has everything forgotten. -/
theorem forgotten_of_change {c : Change K} {s : Session K}
    (returns : (c.action.apply s).1 = .ok ⟨⟩) : (c.action.apply s).2.Forgotten := by
  have run := c.comesTo s
  generalize c.action.apply s = outcome at run returns ⊢
  cases run with
  | unitRefused | systemHalted | edgeRefused | removalRefused => cases returns
  | unitAdded | unitRemoved | systemLoaded | edgeAdded | edgeRemoved => exact ⟨rfl, rfl⟩

/-- A run ends in questions, asked since the last change, after which nothing was remembered. -/
theorem exists_forgotten {deeds : List (Deed K)} {s : Session K} (start : s.Forgotten)
    (returns : Returns deeds s) : ∃ (changed : List (Deed K)) (asked : List (Query K)),
      deeds = changed ++ asked.map .ask ∧ (perform changed s).Forgotten := by
  induction deeds using List.reverseRecOn with
  | nil => exact ⟨[], [], rfl, start⟩
  | append_singleton deeds last ih =>
    obtain ⟨before, here, _⟩ := returns_append.mp returns
    cases last with
    | change c =>
      refine ⟨deeds ++ [.change c], [], by simp, ?_⟩
      rw [perform_append]
      exact forgotten_of_change here
    | ask q =>
      obtain ⟨changed, asked, rfl, forgotten⟩ := ih before
      exact ⟨changed, asked ++ [q], by simp, forgotten⟩

/-! ### The store in a run -/

/-- An invariant of the store for the registered units is kept by lookups if building keeps it. -/
theorem keptByLookups_of_store {P : Lexicon K → QuantityTypes → EdgeStore K → Prop}
    (building : ∀ lex types d, (EdgeStore.edgesOf lex d).Keeps (P lex types) fun _ => True) :
    KeptByLookups fun s : Session K => P s.lexicon s.quantityTypes s.store := by
  have edges (d : Dimension) : (onStore fun lex => EdgeStore.edgesOf lex d).Keeps
      (fun s : Session K => P s.lexicon s.quantityTypes s.store) fun _ => True := by
    intro s holds
    rw [apply_onStore]
    exact ⟨(building s.lexicon s.quantityTypes d).invariant holds, fun _ _ => trivial⟩
  have routes (d : Dimension) : (routes d).Keeps
      (fun s : Session K => P s.lexicon s.quantityTypes s.store) fun _ => True := by
    intro s holds
    have built := (edges d).invariant holds
    rw [apply_onStore] at built
    rw [routes_apply]
    cases (s.chart d).routes with
    | some r => exact ⟨holds, fun _ _ => trivial⟩
    | none =>
      rcases run : (EdgeStore.edgesOf s.lexicon d).apply s.store with ⟨_ | _, store⟩
      · rw [run] at built
        exact ⟨built, fun _ _ => trivial⟩
      · rw [run] at built
        exact ⟨built, fun _ _ => trivial⟩
  refine ⟨⟨fun _ _ _ _ _ => trivial, fun _ _ _ _ => trivial, edges, routes,
    fun d src dest s holds => ?_, fun depth bridging u _ finds s holds => ?_⟩,
    fun d src dest computes => ?_⟩
  · have drawn := (routes d).invariant holds
    rw [route_apply]
    rcases run : (Session.routes d).apply s with ⟨_ | _, t⟩
    · rw [run] at drawn
      exact ⟨drawn, fun _ _ => trivial⟩
    · rw [run] at drawn
      exact ⟨drawn, fun _ _ => trivial⟩
  · have found := finds.invariant holds
    rw [reduceUnit_apply]
    cases s.baseFactors.get? (u.asciiSymbol, bridging) with
    | some known => exact ⟨holds, fun _ _ => trivial⟩
    | none =>
      rcases run : (factorAnew depth bridging u).apply s with ⟨_ | _, t⟩
      · rw [run] at found
        exact ⟨found, fun _ _ => trivial⟩
      · rw [run] at found
        exact ⟨found, fun _ _ => trivial⟩
  · exact conversionIn_keeps (fun s u v _ meant meant' => computes s.lexicon u v meant meant')
      fun _ _ _ holds => holds

/-- A question leaves the units as they are, and what building keeps of the store. -/
theorem registries_ask {s : Session K} {P : EdgeStore K → Prop}
    (building : ∀ d store, P store → P ((EdgeStore.edgesOf s.lexicon d).apply store).2)
    (holds : P s.store) (q : Query K) : (q.after s).lexicon = s.lexicon ∧ P (q.after s).store := by
  have kept : KeptByLookups fun t : Session K => t.lexicon = s.lexicon ∧ P t.store :=
    keptByLookups_of_store (P := fun lex _ store => lex = s.lexicon ∧ P store)
      fun lex _ d store ⟨same, held⟩ => by
        subst same
        exact ⟨⟨rfl, building d store held⟩, fun _ _ => trivial⟩
  exact kept.ask ⟨rfl, holds⟩ q

theorem lexicon_ask (q : Query K) (s : Session K) : (q.after s).lexicon = s.lexicon :=
  (registries_ask (P := fun _ => True) (fun _ _ _ => trivial) trivial q).1

theorem store_ask {s : Session K} {P : EdgeStore K → Prop}
    (building : ∀ d store, P store → P ((EdgeStore.edgesOf s.lexicon d).apply store).2)
    (holds : P s.store) (q : Query K) : P (q.after s).store :=
  (registries_ask building holds q).2

/-- Stores stay orderly in every run, whether changes are made or refused. -/
theorem orderly_after {s : Session K} (orderly : s.store.Orderly) (deed : Deed K) :
    (deed.after s).store.Orderly := by
  cases deed with
  | ask q =>
    exact store_ask (fun d _ => (EdgeStore.orderly_edgesOf d).invariant) orderly q
  | change c =>
    have run := c.comesTo s
    rw [Deed.after]
    generalize c.action.apply s = outcome at run ⊢
    cases run with
    | unitRefused | systemHalted => exact orderly
    | unitAdded | unitRemoved | systemLoaded => exact orderly.reload
    | edgeRefused src dest factor edit | edgeAdded src dest factor edit =>
      exact (EdgeStore.orderly_add src dest factor).left edit orderly
    | removalRefused src dest edit | edgeRemoved src dest edit =>
      exact (EdgeStore.orderly_remove src dest).left edit orderly

theorem orderly_perform {s : Session K} (orderly : s.store.Orderly) (deeds : List (Deed K)) :
    (perform deeds s).store.Orderly := by
  induction deeds generalizing s with
  | nil => exact orderly
  | cons deed rest ih => exact ih (orderly_after orderly deed)

end Metrology.Session
