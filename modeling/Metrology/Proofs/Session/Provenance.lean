import Metrology.Proofs.Graph.Learning
import Metrology.Proofs.Session.Runs
import Metrology.Proofs.Session.Soundness

/-!
# Where remembered answers come from

What a session remembers was computed since the last change of its registries, from the registries
as they are: networks are drawn from the registered units and edges and grow by searches alone, and
every other remembered answer is the answer that a lookup gave in a session with the same
registries.
-/
namespace Metrology.Session

variable {K : Type} [Scalar K]

/-- The registries of one session are those of another; the edges of a dimension may have been
built in the meantime. -/
structure SameRegistries (s t : Session K) : Prop where
  lexicon : t.lexicon = s.lexicon
  quantityTypes : t.quantityTypes = s.quantityTypes
  added : t.store.added = s.store.added
  removed : t.store.removed = s.store.removed
  edges : EdgeStore.SameEdges s.lexicon s.store t.store

theorem SameRegistries.refl (s : Session K) : SameRegistries s s :=
  ⟨rfl, rfl, rfl, rfl, fun _ => rfl⟩

/-- A lookup, which remembers what it finds. -/
inductive Lookup (K : Type) where
  | edges (d : Dimension)
  | network (d : Dimension)
  | route (d : Dimension) (src dest : String)
  | conversion (d : Dimension) (src dest : UnitRef K)
  | baseFactor (depth : Nat) (bridging : Bool) (u : NamedUnit K)

/-- The session after a lookup, whether it found anything or failed. -/
def Lookup.after (s : Session K) : Lookup K → Session K
  | edges d => ((onStore fun lex => EdgeStore.edgesOf lex d).apply s).2
  | network d => ((Session.network d).apply s).2
  | route d src dest => ((Session.route d src dest).apply s).2
  | conversion d src dest => ((conversionIn d src dest).apply s).2
  | baseFactor depth bridging u => ((reduceUnit depth bridging u).apply s).2

/-- Lookups lead from one session to the other, and no change of the registries. -/
def Reaches : Session K → Session K → Prop :=
  Relation.ReflTransGen fun s t => ∃ l : Lookup K, t = l.after s

/-- Routes over the network drawn from the registered units and edges, as searches may leave
them. -/
def Searched (o : Session K) (d : Dimension) (r : Routes K) : Prop :=
  ∃ es, EdgeStore.current o.lexicon o.store d = .ok es ∧
    r.SearchedFrom d.code (drawn o.lexicon d es)

/-- A remembered answer was given by a conversion that was looked up when it was not yet known. -/
def Answered (o : Session K) (d : Dimension) (key : EdgeKey) (found : Option (Conversion K)) : Prop :=
  ∃ t src dest u v, o.Reaches t ∧ ((validate d src).apply t).1 = .ok u ∧
    ((validate d dest).apply t).1 = .ok v ∧ key = (u.write .ascii, v.write .ascii) ∧
    (t.chart d).answers.get? key = none ∧ ((conversionIn d src dest).apply t).1 = .ok found

/-- A remembered factor was given by reducing a unit when it was not yet known. -/
def Reduced (o : Session K) (key : String × Bool) (found : Option (Factor K)) : Prop :=
  ∃ t depth u, o.Reaches t ∧ key.1 = u.asciiSymbol ∧ t.baseFactors.get? key = none ∧
    ((reduceUnit depth key.2 u).apply t).1 = .ok found

/-- What lookups leave of a session that remembers nothing. -/
structure Recalls (o s : Session K) : Prop where
  reached : o.Reaches s
  registries : SameRegistries o s
  routes : ∀ d r, (s.chart d).routes = some r → Searched o d r
  answers : ∀ d key found, (s.chart d).answers.get? key = some found → Answered o d key found
  baseFactors : ∀ key found, s.baseFactors.get? key = some found → Reduced o key found

variable {o s : Session K} {d : Dimension}

theorem Forgotten.recalls (forgotten : o.Forgotten) : Recalls o o where
  reached := .refl
  registries := .refl _
  routes d r known := by simp [forgotten.chart, Chart.blank] at known
  answers d key found known := by simp [forgotten.chart, Chart.blank] at known
  baseFactors key found known := by simp [forgotten.baseFactors] at known

theorem SameRegistries.of_eq {t t' : Session K} (same : SameRegistries o t)
    (lexicon : t'.lexicon = t.lexicon) (types : t'.quantityTypes = t.quantityTypes)
    (store : t'.store = t.store) : SameRegistries o t' :=
  ⟨lexicon.trans same.lexicon, types.trans same.quantityTypes, store ▸ same.added,
    store ▸ same.removed, store ▸ same.edges⟩

/-- Building the edges of a dimension changes no registry. -/
theorem SameRegistries.edgesOf (same : SameRegistries o s) (d : Dimension) :
    SameRegistries o { s with store := ((EdgeStore.edgesOf s.lexicon d).apply s.store).2 } := by
  have edges : EdgeStore.SameEdges o.lexicon o.store
      ((EdgeStore.edgesOf s.lexicon d).apply s.store).2 := by
    rw [same.lexicon]
    exact (EdgeStore.keepsSame_edgesOf o.lexicon o.store d).invariant same.edges
  refine ⟨same.lexicon, same.quantityTypes, ?_, ?_, edges⟩
  · rw [EdgeStore.edgesOf_spec]
    split
    next => exact same.added
    next => split <;> exact same.added
  · rw [EdgeStore.edgesOf_spec]
    split
    next => exact same.removed
    next => split <;> exact same.removed

/-- A further lookup is made; what it newly remembers is given along with its routes, answers and
factors. -/
theorem Recalls.lookup {t : Session K} (recalls : Recalls o s) (l : Lookup K) (after : t = l.after s)
    (registries : SameRegistries o t)
    (routes : ∀ d r, (t.chart d).routes = some r → Searched o d r)
    (answers : ∀ d key found, (t.chart d).answers.get? key = some found → Answered o d key found)
    (baseFactors : ∀ key found, t.baseFactors.get? key = some found → Reduced o key found) :
    Recalls o t :=
  ⟨recalls.reached.tail ⟨l, after⟩, registries, routes, answers, baseFactors⟩

theorem keepsRecalls_edges (d : Dimension) :
    (onStore fun lex => EdgeStore.edgesOf lex d).Keeps (Recalls o) fun _ => True := by
  intro s recalls
  exact ⟨recalls.lookup (.edges d) rfl (recalls.registries.edgesOf d) recalls.routes
    recalls.answers recalls.baseFactors, fun _ _ => trivial⟩

omit [Scalar K] in
/-- The chart of one dimension is replaced. -/
theorem forall_putChart {P : Dimension → Chart K → Prop} {c : Chart K} (own : P d c)
    (old : ∀ e, P e (s.chart e)) : ∀ e, P e ((s.putChart d c).chart e) := by
  intro e
  rw [chart_putChart]
  split
  next same => exact same ▸ own
  next => exact old e

theorem keepsRecalls_routes (d : Dimension) :
    (routes d).Keeps (Recalls o) (Searched o d) := by
  intro s recalls
  have after : ((routes d).apply s).2 = (Lookup.network d).after s := by
    rw [Lookup.after, network_apply]
  have built := recalls.registries.edgesOf d
  rw [routes_apply] at after ⊢
  cases known : (s.chart d).routes with
  | some r =>
    refine ⟨recalls, fun r' same => ?_⟩
    obtain rfl := Except.ok.inj same
    exact recalls.routes d r known
  | none =>
    rw [known] at after
    rcases run : (EdgeStore.edgesOf s.lexicon d).apply s.store with ⟨_ | es, store⟩
    · rw [run] at after built
      exact ⟨recalls.lookup _ after built recalls.routes recalls.answers recalls.baseFactors,
        fun _ answers => nomatch answers⟩
    · rw [run] at after built
      have registered : EdgeStore.current o.lexicon o.store d = .ok es := by
        rw [← recalls.registries.edges d, ← recalls.registries.lexicon, EdgeStore.current, run]
      have searched : Searched o d (.ofNetwork (drawn s.lexicon d es)) := by
        rw [recalls.registries.lexicon]
        exact ⟨es, registered, Routes.searchedFrom_ofNetwork⟩
      refine ⟨recalls.lookup _ after (built.of_eq rfl rfl rfl) ?_ ?_ recalls.baseFactors, ?_⟩
      · exact forall_putChart (P := fun d c => ∀ r, c.routes = some r → Searched o d r)
          (fun r same => Option.some.inj same ▸ searched) recalls.routes
      · exact forall_putChart
          (P := fun d c => ∀ key found, c.answers.get? key = some found → Answered o d key found)
          (recalls.answers d) recalls.answers
      · intro r same
        exact Except.ok.inj same ▸ searched

theorem keepsRecalls_route (d : Dimension) (src dest : String) :
    (route d src dest).Keeps (Recalls o) fun _ => True := by
  intro s recalls
  have after : ((route d src dest).apply s).2 = (Lookup.route d src dest).after s := rfl
  have drawn := keepsRecalls_routes d s recalls
  rw [route_apply] at after ⊢
  rcases run : (routes d).apply s with ⟨e | r, t⟩
  · rw [run] at drawn
    exact ⟨drawn.1, fun _ _ => trivial⟩
  · rw [run] at drawn after
    obtain ⟨es, registered, searched⟩ := drawn.2 r rfl
    refine ⟨recalls.lookup _ after (drawn.1.registries.of_eq rfl rfl rfl) ?_ ?_
      drawn.1.baseFactors, fun _ _ => trivial⟩
    · refine forall_putChart (P := fun d c => ∀ r, c.routes = some r → Searched o d r)
        (fun r' same => ?_) drawn.1.routes
      exact Option.some.inj same ▸ ⟨es, registered, searched.route src dest⟩
    · exact forall_putChart
        (P := fun d c => ∀ key found, c.answers.get? key = some found → Answered o d key found)
        (drawn.1.answers d) drawn.1.answers

theorem keepsRecalls_conversion {src dest : UnitRef K}
    (computes : ∀ (lex : Lexicon K) u v, lex.deref src = .ok u → lex.deref dest = .ok v →
      (compute mergeFactor d u v).Keeps (Recalls o) fun _ => True) :
    (conversionIn d src dest).Keeps (Recalls o) fun _ => True := by
  intro s recalls
  refine ⟨?_, fun _ _ => trivial⟩
  have whole := answer_apply mergeFactor d src dest s
  cases passes : ((validate d src).apply s).1 with
  | error e =>
    rw [passes] at whole
    rw [conversionIn, whole]
    exact recalls
  | ok u =>
    cases passes' : ((validate d dest).apply s).1 with
    | error e =>
      rw [passes, passes'] at whole
      rw [conversionIn, whole]
      exact recalls
    | ok v =>
      rw [passes, passes'] at whole
      dsimp only at whole
      cases missing : (s.chart d).answers.get? (u.write .ascii, v.write .ascii) with
      | some known =>
        rw [missing] at whole
        rw [conversionIn, whole]
        exact recalls
      | none =>
        have computed := (computes s.lexicon u v (deref_of_validate passes)
          (deref_of_validate passes')).invariant recalls
        rcases run : (compute mergeFactor d u v).apply s with ⟨e | found, t⟩
        · rw [missing, run] at whole
          rw [run] at computed
          rw [conversionIn, whole]
          exact computed
        · rw [missing, run] at whole
          rw [run] at computed
          have after : ((conversionIn d src dest).apply s).2 =
              (Lookup.conversion d src dest).after s := rfl
          have answered : Answered o d (u.write .ascii, v.write .ascii) found :=
            ⟨s, src, dest, u, v, recalls.reached, passes, passes', rfl, missing, by
              rw [conversionIn, whole]⟩
          rw [conversionIn, whole] at after ⊢
          refine recalls.lookup _ after (computed.registries.of_eq rfl rfl rfl) ?_ ?_
            computed.baseFactors
          · exact forall_putChart (P := fun d c => ∀ r, c.routes = some r → Searched o d r)
              (computed.routes d) computed.routes
          · refine forall_putChart (P := fun d c => ∀ key found,
              c.answers.get? key = some found → Answered o d key found) (fun key given known => ?_)
              computed.answers
            rw [Register.get?_put] at known
            split at known
            next same => exact same ▸ Option.some.inj known ▸ answered
            next => exact computed.answers d key given known

theorem keepsRecalls_factor {depth : Nat} {bridging : Bool} {u : NamedUnit K}
    (finds : (factorAnew depth bridging u).Keeps (Recalls o) fun _ => True) :
    (reduceUnit (depth + 1) bridging u).Keeps (Recalls o) fun _ => True := by
  intro s recalls
  refine ⟨?_, fun _ _ => trivial⟩
  have found := finds.invariant recalls
  have whole := reduceUnit_apply depth bridging u s
  cases missing : s.baseFactors.get? (u.asciiSymbol, bridging) with
  | some known =>
    rw [missing] at whole
    rw [whole]
    exact recalls
  | none =>
    rcases run : (factorAnew depth bridging u).apply s with ⟨e | factor, t⟩
    · rw [missing, run] at whole
      rw [run] at found
      rw [whole]
      exact found
    · rw [missing, run] at whole
      rw [run] at found
      have after : ((reduceUnit (depth + 1) bridging u).apply s).2 =
          (Lookup.baseFactor (depth + 1) bridging u).after s := rfl
      have reduced : Reduced o (u.asciiSymbol, bridging) factor :=
        ⟨s, depth + 1, u, recalls.reached, rfl, missing, by rw [whole]⟩
      rw [whole] at after ⊢
      refine recalls.lookup _ after (found.registries.of_eq rfl rfl rfl) found.routes found.answers
        fun key given known => ?_
      rw [Register.get?_put] at known
      split at known
      next same => exact same ▸ Option.some.inj known ▸ reduced
      next => exact found.baseFactors key given known

/-- Lookups keep the provenance of what is remembered. What a lookup adds was computed in the session
that it started from, which lookups had reached. -/
theorem keptByLookups_recalls : KeptByLookups (Recalls o) where
  reads _ _ _ _ _ := trivial
  strips _ _ _ _ := trivial
  edges := keepsRecalls_edges
  routes d := (keepsRecalls_routes d).weaken fun _ _ => trivial
  route := keepsRecalls_route
  conversion _ _ _ := keepsRecalls_conversion
  factor _ _ _ _ := keepsRecalls_factor

theorem Recalls.after (recalls : Recalls o s) (l : Lookup K) : Recalls o (l.after s) := by
  have kept := keptByLookups_recalls (o := o)
  cases l with
  | edges d => exact (kept.edges d).invariant recalls
  | network d => exact (kept.network d).invariant recalls
  | route d src dest => exact (kept.route d src dest).invariant recalls
  | conversion d src dest => exact (kept.conversionIn d src dest).invariant recalls
  | baseFactor depth bridging u => exact (kept.reduceUnit depth bridging u).invariant recalls

/-- In all sessions that lookups reach, the registries are the same. -/
theorem Forgotten.sameRegistries (forgotten : o.Forgotten) (reached : o.Reaches s) :
    SameRegistries o s := by
  have recalls : Recalls o s := by
    induction reached with
    | refl => exact forgotten.recalls
    | tail _ step ih =>
      obtain ⟨l, rfl⟩ := step
      exact ih.after l
  exact recalls.registries

theorem Recalls.asked (recalls : Recalls o s) (asked : List (Query K)) :
    Recalls o (perform (asked.map .ask) s) := by
  induction asked generalizing s with
  | nil => exact recalls
  | cons q rest ih => exact ih (keptByLookups_recalls.ask recalls q)

/-- The network of a chart is that of the registered units and edges, with what searches learned. -/
structure UpToDate (s : Session K) (d : Dimension) (r : Routes K) (es : Edges K) : Prop where
  registered : EdgeStore.current s.lexicon s.store d = .ok es
  nodes : r.network.nodes = ((s.lexicon.ofDimension d).map (·.asciiSymbol) ++
    es.values.flatMap fun c => [c.src, c.dest]).eraseDups
  kept : ∀ key c, es.get? key = some c → r.network.edges.get? key = some c
  learned : ∀ key c, r.network.edges.get? key = some c → es.get? key = some c ∨
    ∃ net, Network.GrowsOver d.code (drawn s.lexicon d es) net ∧ net.edges.get? key = none ∧
      net.find d.code key.1 key.2 = .ok (some c)
  known : ∀ key found, r.known.get? key = some found →
    ∃ net, Network.GrowsOver d.code (drawn s.lexicon d es) net ∧
      ((Network.search d.code key.1 key.2).apply net).1 = .ok found

omit [Scalar K] in
/-- The ends of edges that are kept under their ends. -/
theorem ends_of_keyed {es : Edges K} (keyed : EdgeStore.Keyed es) :
    (es.keys.flatMap fun key => [key.1, key.2]) = es.values.flatMap fun c => [c.src, c.dest] := by
  rw [Register.keys, Register.values, List.flatMap_map, List.flatMap_map]
  refine List.flatMap_congr fun row mem => ?_
  rw [keyed.ends row mem]

theorem Searched.upToDate {r : Routes K} (searched : Searched o d r) (same : SameRegistries o s)
    (orderly : o.store.Orderly) : ∃ es, UpToDate s d r es := by
  obtain ⟨es, registered, searches⟩ := searched
  have learned := searches.grows.learnedFrom
  rw [← same.lexicon] at learned searches
  refine ⟨es, ?_, ?_, learned.kept, learned.learned, searches.known⟩
  · rw [same.lexicon, same.edges d, registered]
  · rw [learned.nodes, drawn, Network.ofEdges, ends_of_keyed (orderly.current registered)]

/-- Half a point to the pixel is put right after it was asked about, the pica is taken out and loaded
again, then products are converted. -/
def proofreading : List (Deed ℚ) :=
  [.change (.addConversion "px" "p" ⟨1/2, 0⟩), .ask (.conversion (.symbol "p") (.symbol "px")),
    .change (.removeConversion "px" "p"), .change (.addConversion "px" "p" ⟨3/4, 0⟩),
    .change (.removeUnit "P"), .change (.loadSystem .typography),
    .change (.addConversion "P" "p" ⟨12, 0⟩), .ask (.conversion (.symbol "P*px/p") (.symbol "px"))]

end Metrology.Session
