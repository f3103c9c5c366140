import Metrology.Proofs.Action
import Metrology.Proofs.Graph.Store
import Metrology.Proofs.Register

/-!
# The keys of edges

Whatever units are registered, a store keeps every edge under its two ends and no two edges of a
dimension under the same ends. So the edges of a dimension are a map from pairs of ends to
conversions.
-/
namespace Metrology

variable {K : Type} {lex : Lexicon K} {d : Dimension}

namespace EdgeStore

/-- Edges each kept under its own ends, with no ends twice. -/
structure Keyed (es : Edges K) : Prop where
  nodup : es.keys.Nodup
  ends : ∀ row ∈ es.rows, row.1 = (row.2.src, row.2.dest)

theorem keyed_empty : Keyed (.empty : Edges K) :=
  ⟨List.nodup_nil, fun _ mem => absurd mem List.not_mem_nil⟩

theorem Keyed.put {es : Edges K} (keyed : Keyed es) {key : EdgeKey} {c : Conversion K}
    (own : key = (c.src, c.dest)) : Keyed (es.put key c) := by
  exact ⟨Register.nodup_keys_put keyed.nodup,
    forall_put (P := fun row => row.1 = (row.2.src, row.2.dest)) own keyed.ends⟩

theorem Keyed.erase {es : Edges K} (keyed : Keyed es) (key : EdgeKey) : Keyed (es.erase key) :=
  ⟨Register.nodup_keys_erase keyed.nodup,
    fun row mem => keyed.ends row (Register.mem_rows_erase mem)⟩

/-- The edges that are built and the caller's edges are all kept under their ends. -/
structure Orderly (store : EdgeStore K) : Prop where
  edges : ∀ d es, store.edges.get? d = some es → Keyed es
  added : ∀ d, Keyed (store.addedIn d)

theorem orderly_empty : Orderly (empty : EdgeStore K) :=
  ⟨fun d es built => by simp [empty] at built, fun _ => keyed_empty⟩

theorem Orderly.reload {store : EdgeStore K} (orderly : Orderly store) : Orderly store.reload :=
  ⟨orderly.edges, orderly.added⟩

/-- The edges of one dimension and the caller's edges of it may be replaced. -/
theorem Orderly.putBoth {store : EdgeStore K} (orderly : Orderly store) {es es' : Edges K}
    (edges : Keyed es) (added : Keyed es') {removed : Register Dimension (List EdgeKey)} :
    Orderly { store with
      edges := store.edges.put d es, added := store.added.put d es', removed := removed } := by
  refine ⟨fun e es built => ?_, fun e => ?_⟩
  · rw [Register.get?_put] at built
    split at built
    next => exact Option.some.inj built ▸ edges
    next => exact orderly.edges e es built
  · simp only [addedIn, Register.get?_put]
    split
    next => exact added
    next => exact orderly.added e

variable [Scalar K]

theorem keyed_addRow {es es' : Edges K} {row : EdgeKey × Factor K} (keyed : Keyed es)
    (made : addRow lex d es row = .ok es') : Keyed es' := by
  obtain ⟨ends, _, made⟩ := bind_eq_ok.mp made
  cases ends with
  | none => exact Except.ok.inj made ▸ keyed
  | some ends =>
    obtain ⟨c, _, made⟩ := bind_eq_ok.mp made
    exact Except.ok.inj made ▸ keyed.put rfl

omit [Scalar K] in
theorem keyed_restore {es es' : Edges K} {row : EdgeKey × Conversion K}
    (own : row.1 = (row.2.src, row.2.dest)) (keyed : Keyed es)
    (made : restore lex es row = .ok es') : Keyed es' := by
  obtain ⟨ends, _, made⟩ := bind_eq_ok.mp made
  cases ends with
  | none => exact Except.ok.inj made ▸ keyed
  | some ends => exact Except.ok.inj made ▸ keyed.put own

theorem keyed_build {store : EdgeStore K} (orderly : Orderly store) {es : Edges K}
    (built : store.build lex d = .ok es) : Keyed es := by
  obtain ⟨known, first, rest⟩ := bind_eq_ok.mp built
  have start : Keyed known :=
    foldlM_keeps (fun _ _ _ _ keyed made => keyed_addRow keyed made) keyed_empty first
  have kept (keys : List EdgeKey) {es : Edges K} (keyed : Keyed es) :
      Keyed (keys.foldl (fun edges key => edges.erase key) es) := by
    induction keys generalizing es with
    | nil => exact keyed
    | cons key keys ih => exact ih (keyed.erase key)
  exact foldlM_keeps (fun _ row _ mem keyed made =>
    keyed_restore ((orderly.added d).ends row mem) keyed made) (kept _ start) rest

theorem orderly_edgesOf (d : Dimension) : (edgesOf lex d).Keeps Orderly Keyed := by
  refine .bind .get fun store orderly => ?_
  split
  next =>
    refine .pure ?_
    cases built : store.edges.get? d with
    | none => exact keyed_empty
    | some es => exact orderly.edges d es built
  next =>
    refine .bind (.lift fun es built => keyed_build orderly built) fun es keyed => ?_
    refine .bind (.set ⟨fun e es' built => ?_, orderly.added⟩) fun _ _ => .pure keyed
    rw [Register.get?_put] at built
    split at built
    next => exact Option.some.inj built ▸ keyed
    next => exact orderly.edges e es' built

theorem orderly_add (src dest : String) (factor : Factor K) :
    (add lex src dest factor).Keeps Orderly fun _ => True := by
  refine .bind (.lift fun u read => read) fun u _ => ?_
  refine .bind (.lift fun v read => read) fun v _ => ?_
  refine .bind (.lift fun d given => given) fun d _ => ?_
  refine .bind (.lift fun e given => given) fun e _ => ?_
  dsimp only
  split
  next => exact .bind (Q := fun _ => False) (.throw _) fun _ bad => bad.elim
  next =>
    split
    next => exact .bind (Q := fun _ => False) (.throw _) fun _ bad => bad.elim
    next =>
      refine .bind (orderly_edgesOf d) fun es keyed => ?_
      refine .bind (.lift fun c made => made) fun c _ => ?_
      exact .bind (.modify fun store orderly =>
        orderly.putBoth (keyed.put rfl) ((orderly.added d).put rfl)) fun _ _ => .pure trivial

theorem orderly_remove (src dest : String) :
    (remove lex src dest).Keeps Orderly fun _ => True := by
  refine .bind (.lift fun u read => read) fun u _ => ?_
  refine .bind (.lift fun w bare => bare) fun w _ => ?_
  refine .bind (.lift fun v read => read) fun v _ => ?_
  refine .bind (.lift fun x bare => bare) fun x _ => ?_
  refine .bind (.lift fun d given => given) fun d _ => ?_
  refine .bind (orderly_edgesOf d) fun es keyed => ?_
  exact .bind (.modify fun store orderly =>
    orderly.putBoth (keyed.erase _) ((orderly.added d).erase _)) fun _ _ => .pure trivial

/-- The registered edges of an orderly store are kept under their ends. -/
theorem Orderly.current {store : EdgeStore K} (orderly : Orderly store) {es : Edges K}
    (registered : EdgeStore.current lex store d = .ok es) : Keyed es :=
  (orderly_edgesOf d).answer orderly registered

end EdgeStore

end Metrology
