import Metrology.Graph.EdgeStore
import Metrology.Proofs.Action
import Metrology.Proofs.Outcome
import Metrology.Proofs.Register

/-!
# What holds of every edge

An edge comes from the tables, from the expansion of a unit or from the caller. Once it is made it
is put back and taken out, but never altered. So what holds of every edge when it is made holds of
every edge that is registered at any time.
-/
namespace Metrology.EdgeStore

variable {K : Type} {lex : Lexicon K} {d : Dimension}

/-! ### Building -/

theorem parseEnds_eq_some {src dest : String} {u v : Compound K}
    (given : parseEnds lex src dest = .ok (some (u, v))) :
    lex.parse src = .ok u ∧ lex.parse dest = .ok v := by
  unfold parseEnds at given
  dsimp only at given
  split at given
  next ends parsed =>
    obtain rfl := Option.some.inj (Except.ok.inj given)
    obtain ⟨a, first, rest⟩ := bind_eq_ok.mp parsed
    obtain ⟨b, second, rest⟩ := bind_eq_ok.mp rest
    obtain ⟨rfl, rfl⟩ := Prod.mk.inj (Except.ok.inj rest)
    exact ⟨first, second⟩
  next => split at given <;> cases given

section Building

variable {P : EdgeKey × Conversion K → Prop} {edges edges' : Edges K}

/-- What holds of the edges and of a further one holds after that was put to them. -/
theorem forall_put {key : EdgeKey} {c : Conversion K} (own : P (key, c))
    (old : ∀ r ∈ edges.rows, P r) : ∀ r ∈ (edges.put key c).rows, P r := by
  intro r mem
  rcases Register.mem_rows_put mem with rfl | mem
  · exact own
  · exact old r mem

theorem forall_restore {row : EdgeKey × Conversion K}
    (own : ∀ u v, lex.parse row.2.src = .ok u → lex.parse row.2.dest = .ok v → P row)
    (old : ∀ r ∈ edges.rows, P r) (made : restore lex edges row = .ok edges') :
    ∀ r ∈ edges'.rows, P r := by
  obtain ⟨ends, parsed, made⟩ := bind_eq_ok.mp made
  cases ends with
  | none =>
    obtain rfl := Except.ok.inj made
    exact old
  | some ends =>
    obtain ⟨src, dest⟩ := parseEnds_eq_some parsed
    obtain rfl := Except.ok.inj made
    exact forall_put (own _ _ src dest) old

variable [Scalar K]

theorem forall_addRow {row : EdgeKey × Factor K}
    (own : ∀ u v c, lex.parse row.1.1 = .ok u → lex.parse row.1.2 = .ok v →
      unprefixed d u v row.2 = .ok c → P ((c.src, c.dest), c))
    (old : ∀ r ∈ edges.rows, P r) (made : addRow lex d edges row = .ok edges') :
    ∀ r ∈ edges'.rows, P r := by
  obtain ⟨ends, parsed, made⟩ := bind_eq_ok.mp made
  cases ends with
  | none =>
    obtain rfl := Except.ok.inj made
    exact old
  | some ends =>
    obtain ⟨src, dest⟩ := parseEnds_eq_some parsed
    obtain ⟨c, conversion, made⟩ := bind_eq_ok.mp made
    obtain rfl := Except.ok.inj made
    exact forall_put (own _ _ c src dest conversion) old

/-- What one step keeps, a loop over rows keeps. -/
theorem foldlM_keeps {α β : Type} {I : β → Prop} {f : β → α → Except Error β} {xs : List α}
    (step : ∀ b x b', x ∈ xs → I b → f b x = .ok b' → I b') {b b' : β} (start : I b)
    (run : xs.foldlM f b = .ok b') : I b' := by
  induction xs generalizing b with
  | nil =>
    obtain rfl := Except.ok.inj run
    exact start
  | cons x xs ih =>
    rw [List.foldlM_cons] at run
    obtain ⟨c, first, rest⟩ := bind_eq_ok.mp run
    exact ih (fun b y b' mem => step b y b' (List.mem_cons_of_mem _ mem))
      (step b x c List.mem_cons_self start first) rest

/-- What holds of the edges that the rows give and of the caller's that are read holds of all
edges. -/
theorem forall_build {store : EdgeStore K}
    (own : ∀ row ∈ rows lex d, ∀ u v c, lex.parse row.1.1 = .ok u → lex.parse row.1.2 = .ok v →
      unprefixed d u v row.2 = .ok c → P ((c.src, c.dest), c))
    (added : ∀ row ∈ (store.addedIn d).rows, ∀ u v, lex.parse row.2.src = .ok u →
      lex.parse row.2.dest = .ok v → P row) {es : Edges K}
    (built : store.build lex d = .ok es) : ∀ r ∈ es.rows, P r := by
  obtain ⟨known, first, rest⟩ := bind_eq_ok.mp built
  have start : ∀ r ∈ known.rows, P r :=
    foldlM_keeps (I := fun edges : Edges K => ∀ r ∈ edges.rows, P r)
      (fun _ row _ mem old made => forall_addRow (own row mem) old made)
      (fun _ mem => absurd mem List.not_mem_nil) first
  have left : ∀ keys : List EdgeKey, ∀ edges : Edges K, (∀ r ∈ edges.rows, P r) →
      ∀ r ∈ (keys.foldl (fun edges key => edges.erase key) edges).rows, P r := by
    intro keys
    induction keys with
    | nil => exact fun _ old => old
    | cons key keys ih => exact fun edges old => ih _ fun r mem => old r (Register.mem_rows_erase mem)
  exact foldlM_keeps (I := fun edges : Edges K => ∀ r ∈ edges.rows, P r)
    (fun _ row _ mem old made => forall_restore (added row mem) old made) (left _ known start) rest

/-- Without prefixes a factor is kept; else it is multiplied by the prefixes of the one unit and
divided by those of the other. -/
theorem unprefixed_cases {src dest : Compound K} {factor : Factor K} {c : Conversion K}
    (made : unprefixed d src dest factor = .ok c) :
    (src.hasPrefixes || dest.hasPrefixes) = false ∧ c.factor = factor ∨
      (src.hasPrefixes || dest.hasPrefixes) = true ∧ ∃ m n, dest.multiplier = .ok m ∧
        src.multiplier = .ok n ∧ Scalar.isZero n = false ∧
          c.factor.value = Scalar.div (Scalar.mul factor.value m) n := by
  unfold unprefixed at made
  split at made
  next prefixed =>
    obtain ⟨m, down, made⟩ := bind_eq_ok.mp made
    obtain ⟨n, up, made⟩ := bind_eq_ok.mp made
    obtain ⟨q, divided, made⟩ := bind_eq_ok.mp made
    obtain ⟨_, _, made⟩ := bind_eq_ok.mp made
    obtain ⟨_, _, made⟩ := bind_eq_ok.mp made
    obtain rfl := Except.ok.inj made
    unfold Factor.div at divided
    split at divided
    next => cases divided
    next nonzero =>
      obtain rfl := Except.ok.inj divided
      exact .inr ⟨prefixed, m, n, down, up, by simpa using nonzero, rfl⟩
  next bare =>
    obtain rfl := Except.ok.inj made
    exact .inl ⟨by simpa using bare, rfl⟩

end Building

/-! ### Editing -/

/-- Every edge of a store, and every edge of the caller's that it remembers, is as `P` says. -/
structure Everywhere (P : Dimension → EdgeKey × Conversion K → Prop) (store : EdgeStore K) :
    Prop where
  edges : ∀ d es, store.edges.get? d = some es → ∀ row ∈ es.rows, P d row
  added : ∀ d, ∀ row ∈ (store.addedIn d).rows, P d row

variable {P : Dimension → EdgeKey × Conversion K → Prop} {store : EdgeStore K}

theorem everywhere_empty : Everywhere P (empty : EdgeStore K) :=
  ⟨fun d es built => by simp [empty] at built, fun _ _ mem => absurd mem List.not_mem_nil⟩

/-- The edges of one dimension may be replaced. -/
theorem Everywhere.putEdges (everywhere : Everywhere P store) {es : Edges K}
    (own : ∀ row ∈ es.rows, P d row) {built : List Dimension} :
    Everywhere P { store with edges := store.edges.put d es, built := built } := by
  refine ⟨fun e es' known => ?_, everywhere.added⟩
  rw [Register.get?_put] at known
  split at known
  next same =>
    obtain rfl := Option.some.inj known
    exact same ▸ own
  next => exact everywhere.edges e es' known

/-- So may the caller's edges of it. -/
theorem Everywhere.putAdded (everywhere : Everywhere P store) {added : Edges K}
    (own : ∀ row ∈ added.rows, P d row) {removed : Register Dimension (List EdgeKey)} :
    Everywhere P { store with added := store.added.put d added, removed := removed } := by
  refine ⟨everywhere.edges, fun e => ?_⟩
  simp only [addedIn, Register.get?_put]
  split
  next same => exact same ▸ own
  next => exact everywhere.added e

variable [Scalar K]

/-- What the tables and the expansions lead to is as `P` says. -/
def RowsGive (lex : Lexicon K) (P : Dimension → EdgeKey × Conversion K → Prop) : Prop :=
  ∀ d, ∀ row ∈ rows lex d, ∀ u v c, lex.parse row.1.1 = .ok u → lex.parse row.1.2 = .ok v →
    unprefixed d u v row.2 = .ok c → P d ((c.src, c.dest), c)

/-- So is the edge that an addition makes, if it is made. -/
def AdditionGives (lex : Lexicon K) (P : Dimension → EdgeKey × Conversion K → Prop)
    (src dest : String) (factor : Factor K) : Prop :=
  ∀ u v d c, lex.parse src = .ok u → lex.parse dest = .ok v → u.dimension = .ok d →
    v.dimension = .ok d → Scalar.isNotPositive factor.value = false →
      unprefixed d u v factor = .ok c → P d ((c.src, c.dest), c)

variable (tables : RowsGive lex P)
include tables

theorem everywhere_edgesOf (d : Dimension) :
    (edgesOf lex d).Keeps (Everywhere P) fun es => ∀ row ∈ es.rows, P d row := by
  refine .bind .get fun store everywhere => ?_
  split
  next =>
    refine .pure ?_
    cases known : store.edges.get? d with
    | none => exact fun _ mem => absurd mem List.not_mem_nil
    | some es => exact everywhere.edges d es known
  next =>
    refine .bind (.lift fun es built => ?_) fun es own => .bind (.set (everywhere.putEdges own))
      fun _ _ => .pure own
    exact forall_build (tables d) (fun row mem _ _ _ _ => everywhere.added d row mem) built

theorem everywhere_add {src dest : String} {factor : Factor K}
    (own : AdditionGives lex P src dest factor) :
    (add lex src dest factor).Keeps (Everywhere P) fun _ => True := by
  refine .bind (.lift fun u read => read) fun u isSrc => ?_
  refine .bind (.lift fun v read => read) fun v isDest => ?_
  refine .bind (.lift fun d given => given) fun d dimensionSrc => ?_
  refine .bind (.lift fun e given => given) fun e dimensionDest => ?_
  dsimp only
  split
  next => exact .bind (Q := fun _ => False) (.throw _) fun _ bad => bad.elim
  next same =>
    obtain rfl : d = e := by simpa using same
    split
    next => exact .bind (Q := fun _ => False) (.throw _) fun _ bad => bad.elim
    next sign =>
      refine .bind (everywhere_edgesOf tables d) fun es old => ?_
      refine .bind (.lift fun c made => made) fun c made => ?_
      have own := own u v d c isSrc isDest dimensionSrc dimensionDest (by simpa using sign) made
      refine .bind (.modify fun store everywhere => ?_) fun _ _ => .pure trivial
      exact (everywhere.putEdges (forall_put own old)).putAdded
        (forall_put own (everywhere.added d))

theorem everywhere_remove (src dest : String) :
    (remove lex src dest).Keeps (Everywhere P) fun _ => True := by
  refine .bind (.lift fun u read => read) fun u _ => ?_
  refine .bind (.lift fun w bare => bare) fun w _ => ?_
  refine .bind (.lift fun v read => read) fun v _ => ?_
  refine .bind (.lift fun x bare => bare) fun x _ => ?_
  refine .bind (.lift fun d given => given) fun d _ => ?_
  refine .bind (everywhere_edgesOf tables d) fun es old => ?_
  refine .bind (.modify fun store everywhere => ?_) fun _ _ => .pure trivial
  exact (everywhere.putEdges fun row mem => old row (Register.mem_rows_erase mem)).putAdded
    fun row mem => everywhere.added d row (Register.mem_rows_erase mem)

end Metrology.EdgeStore
