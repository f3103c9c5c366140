import Metrology.Proofs.Graph.Reordering
import Metrology.Proofs.Session.Runs
import Metrology.Proofs.Session.Soundness

/-!
# The journal of a session

A journal of a run tells which edges the caller had added and removed. The registered edges are at
any time those of the tables and the units, overlaid with the last entries of the journal. So nothing
depends on when a dimension was built: building anew changes no edge.
-/
namespace Metrology

variable {K : Type}

/-- An edge was added, or removed where no conversion is given. -/
structure Entry (K : Type) where
  dimension : Dimension
  key : EdgeKey
  added : Option (Conversion K)
  deriving DecidableEq

namespace EdgeStore

/-- What the last entry about an edge says. -/
def lastNoted? (journal : List (Entry K)) (d : Dimension) (key : EdgeKey) :
    Option (Option (Conversion K)) :=
  (journal.reverse.find? fun e => e.dimension = d ∧ e.key = key).map (·.added)

theorem lastNoted?_append_singleton (journal : List (Entry K)) (d e : Dimension)
    (key other : EdgeKey) (added : Option (Conversion K)) :
    lastNoted? (journal ++ [⟨d, key, added⟩]) e other =
      if d = e ∧ key = other then some added else lastNoted? journal e other := by
  rw [lastNoted?, List.reverse_append, List.reverse_singleton, List.singleton_append, List.find?_cons]
  by_cases own : d = e ∧ key = other <;> simp [own, lastNoted?]

/-- The store remembers of every edge what the journal says last. -/
structure Records (journal : List (Entry K)) (store : EdgeStore K) : Prop where
  added : ∀ d key, (store.addedIn d).get? key = (lastNoted? journal d key).join
  removed : ∀ d key, key ∈ store.removedIn d ↔ lastNoted? journal d key = some none

theorem records_empty : Records [] (empty : EdgeStore K) where
  added d key := rfl
  removed d key := by simp [removedIn, empty, lastNoted?]

variable {journal : List (Entry K)} {store store' : EdgeStore K}

theorem Records.of_eq (records : Records journal store) (added : store'.added = store.added)
    (removed : store'.removed = store.removed) : Records journal store' where
  added d key := by
    rw [addedIn, added]
    exact records.added d key
  removed d key := by
    rw [removedIn, removed]
    exact records.removed d key

theorem get?_addedIn_keep (d e : Dimension) (es : Edges K) (c : Conversion K) (key : EdgeKey) :
    ((store.keep d es c).addedIn e).get? key =
      if d = e ∧ (c.src, c.dest) = key then some c else (store.addedIn e).get? key := by
  by_cases here : d = e
  · subst here
    simp [keep, addedIn]
  · simp [keep, addedIn, here]

theorem mem_removedIn_keep (d e : Dimension) (es : Edges K) (c : Conversion K) (key : EdgeKey) :
    key ∈ (store.keep d es c).removedIn e ↔
      key ∈ store.removedIn e ∧ ¬(d = e ∧ (c.src, c.dest) = key) := by
  by_cases here : d = e
  · subst here
    have kept : (store.keep d es c).removedIn d =
        (store.removedIn d).filter (· ≠ (c.src, c.dest)) := by
      rw [removedIn, keep, Register.get?_put_self, Option.getD_some]
    rw [kept, List.mem_filter, decide_eq_true_eq, ne_comm]
    simp
  · simp [keep, removedIn, here]

theorem get?_addedIn_drop (d e : Dimension) (es : Edges K) (key other : EdgeKey) :
    ((store.drop d es key).addedIn e).get? other =
      if d = e ∧ key = other then none else (store.addedIn e).get? other := by
  by_cases here : d = e
  · subst here
    simp [drop, addedIn]
  · simp [drop, addedIn, here]

theorem mem_removedIn_drop (d e : Dimension) (es : Edges K) (key other : EdgeKey) :
    other ∈ (store.drop d es key).removedIn e ↔
      d = e ∧ key = other ∨ other ∈ store.removedIn e := by
  by_cases here : d = e
  · subst here
    rw [removedIn, drop, Register.get?_put_self, Option.getD_some, mem_noted]
    simp [eq_comm]
  · simp [drop, removedIn, here]

theorem Records.keep (records : Records journal store) (d : Dimension) (es : Edges K)
    (c : Conversion K) :
    Records (journal ++ [⟨d, (c.src, c.dest), some c⟩]) (store.keep d es c) where
  added e key := by
    rw [lastNoted?_append_singleton, get?_addedIn_keep, records.added]
    split <;> rfl
  removed e key := by
    rw [lastNoted?_append_singleton, mem_removedIn_keep, records.removed]
    split
    next own => simp [own]
    next other => simp [other]

theorem Records.drop (records : Records journal store) (d : Dimension) (es : Edges K)
    (key : EdgeKey) : Records (journal ++ [⟨d, key, none⟩]) (store.drop d es key) where
  added e other := by
    rw [lastNoted?_append_singleton, get?_addedIn_drop, records.added]
    split <;> rfl
  removed e other := by
    rw [lastNoted?_append_singleton, mem_removedIn_drop, records.removed]
    split
    next own => simp [own]
    next another => simp [another]

variable [Scalar K] {lex : Lexicon K} {d : Dimension}

/-- **What the registered edges are.** -/
theorem Faithful.get?_current (faithful : Faithful lex store) (records : Records journal store)
    {es : Edges K} (registered : current lex store d = .ok es) (key : EdgeKey) :
    es.get? key = overlay lex (lastNoted? journal d key) (tabledEdge? lex d key) := by
  obtain ⟨fresh, built, alike⟩ := (faithful.sameMap d).forth es registered
  rw [alike key, get?_build faithful.orderly built, records.added]
  have removed := records.removed d key
  rcases last : lastNoted? journal d key with _ | _ | c
  · simp [removed, last, overlay]
  · simp [removed, last, overlay]
  · simp [removed, last, overlay]

end EdgeStore

namespace Session

variable [Scalar K]

/-- What is done with a session: a deed, or it is told to build its edges anew. -/
inductive Step (K : Type) where
  | deed (deed : Deed K)
  | reload

/-- The session after a step, whether it succeeded or not. -/
def Step.after (s : Session K) : Step K → Session K
  | .deed done => done.after s
  | .reload => { s with store := s.store.reload }

/-- The entry that a step makes in the journal. -/
def Step.noted? (s : Session K) : Step K → Option (Entry K)
  | .deed (.change (.addConversion src dest factor)) => do
    let c ← ((addConversion src dest factor).apply s).1.toOption
    let u ← (s.lexicon.parse src).toOption
    let d ← u.dimension.toOption
    return ⟨d, (c.src, c.dest), some c⟩
  | .deed (.change (.removeConversion src dest)) => do
    let _ ← ((removeConversion src dest).apply s).1.toOption
    let (d, key) ← (EdgeStore.removal s.lexicon src dest).toOption
    return ⟨d, key, none⟩
  | _ => none

/-- A step is regular if a system that it loads does not collide with registered units and the ends of
an edge that it adds are read as units. -/
def Step.Regular (s : Session K) : Step K → Prop
  | .deed (.change (.loadSystem system)) => ∃ n, ((loadSystem system).apply s).1 = .ok n
  | .deed (.change (.addConversion src dest factor)) =>
    ∀ c, ((addConversion src dest factor).apply s).1 = .ok c → EdgeStore.isNamed s.lexicon c = true
  | _ => True

/-- The session after one step after the other. -/
def stepped (steps : List (Step K)) (s : Session K) : Session K := steps.foldl Step.after s

/-- The entries that steps make. -/
def journal : List (Step K) → Session K → List (Entry K)
  | [], _ => []
  | step :: rest, s => (step.noted? s).toList ++ journal rest (step.after s)

/-- Every step is regular where it is made. -/
def Regular : List (Step K) → Session K → Prop
  | [], _ => True
  | step :: rest, s => step.Regular s ∧ Regular rest (step.after s)

/-- The registered edges of a dimension, built if they are not up to date. -/
def registered (s : Session K) (d : Dimension) : Except Error (Edges K) :=
  EdgeStore.current s.lexicon s.store d

/-! ### What a step does -/

/-- What a regular step does to the registries, with the entry that it makes. -/
inductive Effect (s : Session K) : Option (Entry K) → Session K → Prop
  | looked {t : Session K} (lexicon : t.lexicon = s.lexicon)
      (looked : EdgeStore.Looked s.lexicon s.store t.store) : Effect s none t
  | reloaded {t : Session K}
      (lexicon : s.lexicon.Consistent →
        t.lexicon.Consistent ∧ t.lexicon.prefixes = s.lexicon.prefixes)
      (store : t.store = s.store.reload) : Effect s none t
  | kept {t : Session K} {d : Dimension} {built : EdgeStore K} {c : Conversion K}
      (looked : EdgeStore.Looked s.lexicon s.store built) (isBuilt : built.built.contains d = true)
      (named : EdgeStore.isNamed s.lexicon c = true) (lexicon : t.lexicon = s.lexicon)
      (store : t.store = built.keep d ((built.edges.get? d).getD .empty) c) :
      Effect s (some ⟨d, (c.src, c.dest), some c⟩) t
  | dropped {t : Session K} {d : Dimension} {built : EdgeStore K} {key : EdgeKey}
      (looked : EdgeStore.Looked s.lexicon s.store built) (isBuilt : built.built.contains d = true)
      (lexicon : t.lexicon = s.lexicon)
      (store : t.store = built.drop d ((built.edges.get? d).getD .empty) key) :
      Effect s (some ⟨d, key, none⟩) t

variable {s t : Session K}

theorem looked_ask (q : Query K) : EdgeStore.Looked s.lexicon s.store (q.after s).store :=
  store_ask (fun d _ looked => looked.edgesOf d) (EdgeStore.looked_refl _ _) q

theorem Change.effect {c : Change K} (regular : (Step.deed (.change c)).Regular s) :
    Effect s ((Step.deed (.change c)).noted? s) (c.action.apply s).2 := by
  have run := c.comesTo s
  generalize c.action.apply s = outcome at run ⊢
  cases run with
  | unitRefused => exact .looked rfl (EdgeStore.looked_refl _ _)
  | unitAdded added =>
    exact .reloaded (fun consistent => ⟨consistent.add added, Lexicon.prefixes_add added⟩) rfl
  | unitRemoved symbol =>
    exact .reloaded (fun consistent => ⟨consistent.remove symbol, Lexicon.prefixes_remove _ _⟩) rfl
  | systemHalted loading =>
    obtain ⟨n, loaded⟩ := regular
    rw [loadSystem_apply, loading] at loaded
    cases loaded
  | systemLoaded loading =>
    exact .reloaded (fun consistent =>
      (Lexicon.keepsConsistent_loadSystem _ s.lexicon.prefixes).left loading ⟨consistent, rfl⟩) rfl
  | edgeRefused src dest factor edit =>
    rw [Step.noted?, addConversion_apply, edit]
    exact .looked rfl (EdgeStore.refused_of_add edit).looked
  | @edgeAdded src dest factor c store edit =>
    have named := regular c (by rw [addConversion_apply, edit])
    rw [Step.noted?, addConversion_apply, edit]
    obtain ⟨u, _, d, es, built, read, _, given, _, edges, _, rfl⟩ := EdgeStore.kept_of_add edit
    rw [read]
    show Effect s (do
      let d ← u.dimension.toOption
      return ⟨d, (c.src, c.dest), some c⟩) _
    rw [given]
    obtain ⟨isBuilt, rfl⟩ := EdgeStore.built_of_edgesOf edges
    exact .kept (EdgeStore.looked_of_edgesOf edges) isBuilt named rfl rfl
  | removalRefused src dest edit =>
    rw [Step.noted?, removeConversion_apply, edit]
    exact .looked rfl (EdgeStore.refused_of_remove edit).looked
  | @edgeRemoved src dest c store edit =>
    rw [Step.noted?, removeConversion_apply, edit]
    obtain ⟨d, key, es, built, removal, edges, rfl⟩ := EdgeStore.dropped_of_remove edit
    rw [removal]
    obtain ⟨isBuilt, rfl⟩ := EdgeStore.built_of_edgesOf edges
    exact .dropped (EdgeStore.looked_of_edgesOf edges) isBuilt rfl rfl

theorem Step.effect {step : Step K} (regular : step.Regular s) :
    Effect s (step.noted? s) (step.after s) := by
  match step with
  | .reload => exact .reloaded (fun consistent => ⟨consistent, rfl⟩) rfl
  | .deed (.ask q) => exact .looked (lexicon_ask q s) (looked_ask q)
  | .deed (.change c) => exact Change.effect regular

/-! ### What holds in every run -/

/-- The store is faithful, and remembers what the journal says. -/
structure Journaled (entries : List (Entry K)) (s : Session K) : Prop where
  consistent : s.lexicon.Consistent
  faithful : EdgeStore.Faithful s.lexicon s.store
  records : EdgeStore.Records entries s.store

variable {entries : List (Entry K)}

theorem Journaled.effect {noted : Option (Entry K)} (journaled : Journaled entries s)
    (effect : Effect s noted t) : Journaled (entries ++ noted.toList) t := by
  obtain ⟨consistent, faithful, records⟩ := journaled
  cases effect with
  | looked lexicon looked =>
    rw [Option.toList_none, List.append_nil]
    exact ⟨lexicon ▸ consistent, lexicon ▸ looked.faithful faithful,
      records.of_eq looked.added looked.removed⟩
  | reloaded lexicon store =>
    rw [Option.toList_none, List.append_nil]
    exact ⟨(lexicon consistent).1, store ▸ EdgeStore.faithful_reload faithful.orderly,
      records.of_eq (by rw [store]; rfl) (by rw [store]; rfl)⟩
  | @kept t d built c looked isBuilt named lexicon store =>
    exact ⟨lexicon ▸ consistent, lexicon ▸ store ▸ (looked.faithful faithful).keep isBuilt named,
      store ▸ (records.of_eq looked.added looked.removed).keep d _ c⟩
  | @dropped t d built key looked isBuilt lexicon store =>
    exact ⟨lexicon ▸ consistent, lexicon ▸ store ▸ (looked.faithful faithful).drop isBuilt key,
      store ▸ (records.of_eq looked.added looked.removed).drop d _ key⟩

theorem Journaled.stepped {steps : List (Step K)} (journaled : Journaled entries s)
    (regular : Regular steps s) :
    Journaled (entries ++ journal steps s) (Session.stepped steps s) := by
  induction steps generalizing entries s with
  | nil =>
    rw [journal, List.append_nil]
    exact journaled
  | cons step rest ih =>
    rw [journal, ← List.append_assoc]
    exact ih (journaled.effect (Step.effect regular.1)) regular.2

theorem journaled_ofSystems {systems : List MeasurementSystem} (made : ofSystems systems = .ok s) :
    Journaled [] s where
  consistent := (consistent_ofSystems made).1
  faithful := by
    rw [(blank_of_ofSystems made).1]
    exact EdgeStore.faithful_empty
  records := by
    rw [(blank_of_ofSystems made).1]
    exact EdgeStore.records_empty

/-- A reloading changes no edge. -/
theorem Journaled.reload (journaled : Journaled entries s) (d : Dimension) :
    EdgeStore.SameMap (registered s d) (registered (Step.reload.after s) d) := by
  have again : EdgeStore.Faithful s.lexicon s.store.reload :=
    EdgeStore.faithful_reload journaled.faithful.orderly
  exact (journaled.faithful.sameMap d).trans (again.sameMap d).symm

/-- A step that changes no unit changes only the edges of the dimension that its entry is about. -/
theorem Journaled.frame {noted : Option (Entry K)} (journaled : Journaled entries s)
    (effect : Effect s noted t) (units : t.lexicon.units = s.lexicon.units) {d : Dimension}
    (other : ∀ e, noted = some e → e.dimension ≠ d) :
    EdgeStore.SameMap (registered s d) (registered t d) := by
  have journaled' := journaled.effect effect
  have marks : t.store.addedIn d = s.store.addedIn d ∧ t.store.removedIn d = s.store.removedIn d := by
    cases effect with
    | looked _ looked =>
      rw [EdgeStore.addedIn, EdgeStore.addedIn, EdgeStore.removedIn, EdgeStore.removedIn, looked.added,
        looked.removed]
      exact ⟨rfl, rfl⟩
    | reloaded _ store =>
      rw [store]
      exact ⟨rfl, rfl⟩
    | @kept t e built c looked _ _ _ store =>
      rw [store, EdgeStore.addedIn, EdgeStore.addedIn, EdgeStore.removedIn, EdgeStore.removedIn,
        ← looked.added, ← looked.removed]
      simp [EdgeStore.keep, other _ rfl]
    | @dropped t e built key looked _ _ store =>
      rw [store, EdgeStore.addedIn, EdgeStore.addedIn, EdgeStore.removedIn, EdgeStore.removedIn,
        ← looked.added, ← looked.removed]
      simp [EdgeStore.drop, other _ rfl]
  have prefixes : t.lexicon.prefixes = s.lexicon.prefixes := by
    cases effect with
    | looked lexicon _ => rw [lexicon]
    | reloaded lexicon _ => exact (lexicon journaled.consistent).2
    | kept _ _ _ lexicon _ => rw [lexicon]
    | dropped _ _ lexicon _ => rw [lexicon]
  have same : t.store.build t.lexicon d = s.store.build s.lexicon d := by
    rw [EdgeStore.build_of_units units
      (journaled.consistent.parse_eq journaled'.consistent units prefixes),
      EdgeStore.build_congr marks.1 marks.2]
  exact (journaled.faithful.sameMap d).trans (same ▸ (journaled'.faithful.sameMap d).symm)

/-- A unit that is taken out and registered again leaves every edge as it was, if the ASCII symbols
of the units with expansions are read as those units. -/
theorem Journaled.again (journaled : Journaled entries s) {symbol : String} {u : NamedUnit K}
    (found : s.lexicon.find? symbol = some u)
    (back : ∀ v ∈ s.lexicon.units.values, v.isExpandable → s.lexicon.ReadsBack v) :
    ∃ without with', (removeUnit symbol).apply s = (.ok (some u), without) ∧
      (addUnit u).apply without = (.ok ⟨⟩, with') ∧
      ∀ d, EdgeStore.SameMap (registered s d) (registered with' d) := by
  obtain ⟨more, added, parse, units⟩ := journaled.consistent.add_remove found
  have removed : (s.lexicon.remove symbol).1 = some u := by rw [Lexicon.remove, found]
  refine ⟨refresh { s with lexicon := (s.lexicon.remove symbol).2 },
    refresh (refresh { s with lexicon := more }), by rw [removeUnit_apply, removed], ?_, fun d => ?_⟩
  · have free : (refresh { s with lexicon := (s.lexicon.remove symbol).2 }).lexicon.add u =
        .ok more := added
    rw [addUnit_apply, free]
    rfl
  · have reordered : EdgeStore.SameMap (s.store.build s.lexicon d) (s.store.build more d) :=
      EdgeStore.sameMap_of_perm journaled.faithful.orderly journaled.consistent units parse back
    have unbuilt : registered (refresh (refresh { s with lexicon := more })) d =
        s.store.build more d := EdgeStore.current_of_unbuilt rfl
    rw [unbuilt]
    exact (journaled.faithful.sameMap d).trans reordered

/-- **The registered edges are those of a rebuilding from history.** A session is made from any
systems, and then units and conversions are registered and taken out, systems loaded, questions asked
and edges reloaded, in any order; what fails may fail, except that no loading stops halfway and that
the symbols under which an edge is added are read as units. Then the edges of a dimension are those
of the tables and the expansions, the last one for each pair of ends, overlaid with what was last
done to the edge: removed, or added and its symbols are still read. Reloading changes no edge. A step
that changes no unit changes the edges of no dimension but the one of the edge that it adds or
removes. A unit that is taken out and registered again leaves every edge as it was, if the ASCII
symbols of units with expansions are read as those units. -/
theorem edges_follow_journal {systems : List MeasurementSystem} {s t : Session K}
    (made : ofSystems systems = .ok s) {steps : List (Step K)} (regular : Regular steps s)
    (run : stepped steps s = t) :
    (∀ d es, registered t d = .ok es → ∀ key, es.get? key =
      EdgeStore.overlay t.lexicon (EdgeStore.lastNoted? (journal steps s) d key)
        (EdgeStore.tabledEdge? t.lexicon d key)) ∧
    (∀ d, EdgeStore.SameMap (registered t d) (registered (Step.reload.after t) d)) ∧
    (∀ (step : Step K) d, step.Regular t → (step.after t).lexicon.units = t.lexicon.units →
      (∀ e, step.noted? t = some e → e.dimension ≠ d) →
      EdgeStore.SameMap (registered t d) (registered (step.after t) d)) ∧
    ∀ symbol u, t.lexicon.find? symbol = some u →
      (∀ v ∈ t.lexicon.units.values, v.isExpandable → t.lexicon.ReadsBack v) →
      ∃ without with', (removeUnit symbol).apply t = (.ok (some u), without) ∧
        (addUnit u).apply without = (.ok ⟨⟩, with') ∧
        ∀ d, EdgeStore.SameMap (registered t d) (registered with' d) := by
  subst run
  have journaled := (journaled_ofSystems made).stepped regular
  rw [List.nil_append] at journaled
  exact ⟨fun d es built key => journaled.faithful.get?_current journaled.records built key,
    journaled.reload,
    fun step d regular units other => journaled.frame (Step.effect regular) units other,
    fun symbol u found back => journaled.again found back⟩

/-- Two edges are added; after a reloading one of them is removed, and then its unit is taken out. -/
def relating : List (Step ℚ) :=
  [.deed (.change (.addConversion "P" "p" ⟨12, 0⟩)), .deed (.change (.addConversion "px" "p" ⟨1/2, 0⟩)),
    .reload, .deed (.change (.removeConversion "px" "p")), .deed (.change (.removeUnit "px"))]

theorem regular_relating : Regular relating typographer := by
  have edges : ((addConversion "P" "p" ⟨12, 0⟩).apply typographer).1 = .ok ⟨"L", "P", "p", ⟨12, 0⟩⟩ ∧
      ((addConversion "px" "p" ⟨1/2, 0⟩).apply (Step.after typographer
        (.deed (.change (.addConversion "P" "p" ⟨12, 0⟩))))).1 = .ok ⟨"L", "px", "p", ⟨1/2, 0⟩⟩ ∧
      EdgeStore.isNamed typographer.lexicon ⟨"L", "P", "p", ⟨12, 0⟩⟩ = true ∧
      EdgeStore.isNamed (Step.after typographer
        (.deed (.change (.addConversion "P" "p" ⟨12, 0⟩)))).lexicon
          ⟨"L", "px", "p", ⟨1/2, 0⟩⟩ = true := by
    decide +kernel
  obtain ⟨first, second, named, named'⟩ := edges
  refine ⟨fun c given => ?_, fun c given => ?_, trivial, trivial, trivial, trivial⟩
  · obtain rfl := Except.ok.inj (first.symm.trans given)
    exact named
  · obtain rfl := Except.ok.inj (second.symm.trans given)
    exact named'

/-- The edge that was removed is gone and the other one is there. -/
theorem relating_followed :
    ofSystems [.typography] = .ok typographer ∧ Regular relating typographer ∧
      ∃ es, registered (stepped relating typographer) (.ofAxis .length) = .ok es ∧
        es.get? ("P", "p") = some ⟨"L", "P", "p", ⟨12, 0⟩⟩ ∧ es.get? ("px", "p") = none := by
  have run : (registered (stepped relating typographer) (.ofAxis .length)).toOption.isSome ∧
      EdgeStore.lastNoted? (journal relating typographer) (.ofAxis .length) ("P", "p") =
        some (some ⟨"L", "P", "p", ⟨12, 0⟩⟩) ∧
      EdgeStore.lastNoted? (journal relating typographer) (.ofAxis .length) ("px", "p") = some none ∧
      EdgeStore.isNamed (stepped relating typographer).lexicon ⟨"L", "P", "p", ⟨12, 0⟩⟩ = true := by
    decide +kernel
  obtain ⟨isBuilt, kept, dropped, named⟩ := run
  have built := eq_ok_getD isBuilt .empty
  have follows := (edges_follow_journal ofSystems_typographer regular_relating rfl).1 _ _ built
  refine ⟨ofSystems_typographer, regular_relating, _, built, ?_, ?_⟩
  · rw [follows, kept, EdgeStore.overlay, if_pos named]
  · rw [follows, dropped, EdgeStore.overlay]

/-! ### A loading that stops halfway -/

/-- A length under the symbol of the foot. -/
def squatter : NamedUnit ℚ :=
  ⟨"Mine", "mine", "mine", some "ft", .ofAxis .length, 0, [], none, 1, none⟩

/-- The masses are built, and then the loading of the US units stops at the foot. -/
def interrupted : Session ℚ :=
  stepped [.deed (.change (.addUnit squatter)), .deed (.ask (.network (.ofAxis .mass))),
    .deed (.change (.loadSystem .us))] typographer

/-- The masses that were registered before the loading stopped have no edges until the edges are
reloaded. -/
theorem reload_finds_edges :
    ¬ EdgeStore.SameMap (registered interrupted (.ofAxis .mass))
      (registered (Step.reload.after interrupted) (.ofAxis .mass)) := by
  have edges : (registered interrupted (.ofAxis .mass)).toOption.map (·.get? ("lb", "oz")) = some none ∧
      (registered (Step.reload.after interrupted) (.ofAxis .mass)).toOption.map (·.get? ("lb", "oz")) =
        some (some ⟨"M", "lb", "oz", ⟨16, 0⟩⟩) := by decide +kernel
  exact EdgeStore.not_sameMap edges.1 edges.2 nofun

/-! ### A unit whose symbol reads as a power -/

/-- A length whose ASCII symbol is read as a power of an unknown unit. -/
def quarto : NamedUnit ℚ :=
  ⟨"Quarto", "q7", "q7", some "quarto", .ofAxis .length, 0, [], none, 1, none⟩

/-- The quarto is related to the point under its alternate symbol. -/
def bound : Session ℚ :=
  stepped [.deed (.change (.addUnit quarto)),
    .deed (.change (.addConversion "quarto" "p" ⟨2, 0⟩))] typographer

/-- The edge of the quarto is registered, and reloading loses it though the quarto is registered. -/
theorem reload_loses_edge :
    ¬ EdgeStore.SameMap (registered bound (.ofAxis .length))
      (registered (Step.reload.after bound) (.ofAxis .length)) := by
  have edges : (registered bound (.ofAxis .length)).toOption.map (·.get? ("q7", "p")) =
        some (some ⟨"L", "q7", "p", ⟨2, 0⟩⟩) ∧
      (registered (Step.reload.after bound) (.ofAxis .length)).toOption.map (·.get? ("q7", "p")) =
        some none := by decide +kernel
  exact EdgeStore.not_sameMap edges.1 edges.2 nofun

end Session

end Metrology
