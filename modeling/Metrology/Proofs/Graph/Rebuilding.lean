import Metrology.Proofs.Graph.Keys

/-!
# Building edges anew

What the edges of a dimension are when they are built: the last row read under a key, unless the
caller removed the key, or the caller's own conversion where both its ends are registered. A store
whose built edges are those that building would give keeps that when edges are added and removed.
-/
namespace Metrology

variable {K : Type} [Scalar K] {lex : Lexicon K} {store : EdgeStore K} {d : Dimension}

namespace EdgeStore

/-! ### Rows as edges -/

/-- The edge that a row gives, if both its ends can be read. -/
def edgeOf? (lex : Lexicon K) (d : Dimension) (row : EdgeKey × Factor K) :
    Option (Conversion K) := do
  let src ← (lex.parse row.1.1).toOption
  let dest ← (lex.parse row.1.2).toOption
  (unprefixed d src dest row.2).toOption

/-- The last edge with these ends. -/
def lastEdge? (key : EdgeKey) (cs : List (Conversion K)) : Option (Conversion K) :=
  cs.reverse.find? fun c => (c.src, c.dest) = key

/-- The edge with these ends from the tables and the expansions, the last one if there are several. -/
def tabledEdge? (lex : Lexicon K) (d : Dimension) (key : EdgeKey) : Option (Conversion K) :=
  lastEdge? key ((rows lex d).filterMap (edgeOf? lex d))

/-- Both ends of a conversion can be read. -/
def isNamed (lex : Lexicon K) (c : Conversion K) : Bool :=
  (lex.parse c.src).isOk && (lex.parse c.dest).isOk

/-- An edge of the caller's in place of the one that is known otherwise, or its removal. -/
def overlay (lex : Lexicon K) (last : Option (Option (Conversion K)))
    (known : Option (Conversion K)) : Option (Conversion K) :=
  match last with
  | some (some c) => if isNamed lex c then some c else known
  | some none => none
  | none => known

omit [Scalar K] in
theorem lastEdge?_cons (key : EdgeKey) (c : Conversion K) (cs : List (Conversion K)) :
    lastEdge? key (c :: cs) =
      (lastEdge? key cs).or (if (c.src, c.dest) = key then some c else none) := by
  rw [lastEdge?, List.reverse_cons, List.find?_append, ← lastEdge?]
  by_cases same : (c.src, c.dest) = key <;> simp [same]

omit [Scalar K] in
/-- Ends that are looked up are both read, or one of them cannot be. -/
theorem parseEnds_cases {src dest : String} {ends : Option (Compound K × Compound K)}
    (given : parseEnds lex src dest = .ok ends) :
    (∃ u v, lex.parse src = .ok u ∧ lex.parse dest = .ok v ∧ ends = some (u, v)) ∨
      ends = none ∧ ((lex.parse src).isOk && (lex.parse dest).isOk) = false := by
  cases ends with
  | some ends =>
    obtain ⟨src, dest⟩ := parseEnds_eq_some given
    exact .inl ⟨_, _, src, dest, rfl⟩
  | none =>
    refine .inr ⟨rfl, ?_⟩
    cases read : lex.parse src with
    | error e => rfl
    | ok u =>
      cases read' : lex.parse dest with
      | error e => rfl
      | ok v => simp [parseEnds, read, read', bind, Except.bind, pure, Except.pure] at given

/-- What adding a row to the edges comes to. -/
theorem get?_addRow {es es' : Edges K} {row : EdgeKey × Factor K}
    (made : addRow lex d es row = .ok es') (key : EdgeKey) :
    es'.get? key = (lastEdge? key (edgeOf? lex d row).toList).or (es.get? key) := by
  obtain ⟨ends, parsed, made⟩ := bind_eq_ok.mp made
  rcases parseEnds_cases parsed with ⟨u, v, src, dest, rfl⟩ | ⟨rfl, unread⟩
  · obtain ⟨c, conversion, made⟩ := bind_eq_ok.mp made
    obtain rfl := Except.ok.inj made
    have edge : edgeOf? lex d row = some c := by
      simp [edgeOf?, src, dest, conversion, Except.toOption]
    rw [edge, Register.get?_put]
    by_cases same : (c.src, c.dest) = key <;> simp [lastEdge?, same]
  · obtain rfl := Except.ok.inj made
    have edge : edgeOf? lex d row = none := by
      unfold edgeOf?
      cases read : lex.parse row.1.1 with
      | error e => rfl
      | ok u =>
        cases read' : lex.parse row.1.2 with
        | error e => rfl
        | ok v => simp [read, read', Except.isOk, Except.toBool] at unread
    simp [edge, lastEdge?]

theorem get?_addRows {rows : List (EdgeKey × Factor K)} {es es' : Edges K}
    (made : rows.foldlM (addRow lex d) es = .ok es') (key : EdgeKey) :
    es'.get? key = (lastEdge? key (rows.filterMap (edgeOf? lex d))).or (es.get? key) := by
  induction rows generalizing es with
  | nil =>
    obtain rfl := Except.ok.inj made
    simp [lastEdge?]
  | cons row rest ih =>
    rw [List.foldlM_cons] at made
    obtain ⟨mid, first, made⟩ := bind_eq_ok.mp made
    rw [ih made, get?_addRow first]
    cases edge : edgeOf? lex d row with
    | none => simp [edge, lastEdge?]
    | some c =>
      rw [List.filterMap_cons_some edge, lastEdge?_cons, Option.toList_some, lastEdge?_cons]
      simp [lastEdge?, Option.or_assoc]

omit [Scalar K] in
/-- Putting back the caller's edges, each kept under a key of its own. -/
theorem get?_restoreAll {rows : List (EdgeKey × Conversion K)} (nodup : (rows.map (·.1)).Nodup)
    {es es' : Edges K} (made : rows.foldlM (restore lex) es = .ok es') (key : EdgeKey) :
    es'.get? key = overlay lex ((Register.find key rows).map some) (es.get? key) := by
  induction rows generalizing es with
  | nil =>
    obtain rfl := Except.ok.inj made
    rfl
  | cons row rest ih =>
    obtain ⟨own, c⟩ := row
    obtain ⟨fresh, nodup⟩ := List.nodup_cons.mp nodup
    rw [List.foldlM_cons] at made
    obtain ⟨mid, first, made⟩ := bind_eq_ok.mp made
    have restored : mid.get? key =
        if own = key then if isNamed lex c then some c else es.get? key else es.get? key := by
      obtain ⟨ends, parsed, first⟩ := bind_eq_ok.mp first
      rcases parseEnds_cases parsed with ⟨u, v, src, dest, rfl⟩ | ⟨rfl, unread⟩
      · obtain rfl := Except.ok.inj first
        simp [isNamed, src, dest, Except.isOk, Except.toBool]
      · obtain rfl := Except.ok.inj first
        simp [isNamed, unread]
    rw [ih nodup made, restored]
    by_cases same : own = key
    · subst same
      have none : Register.find own rest = none := Register.find_eq_none_iff.mpr fresh
      simp [none, Register.find, overlay]
    · simp [Register.find, same]

/-- **What building gives.** -/
theorem get?_build (orderly : store.Orderly) {es : Edges K} (built : store.build lex d = .ok es)
    (key : EdgeKey) :
    es.get? key = overlay lex (((store.addedIn d).get? key).map some)
      (if key ∈ store.removedIn d then none else tabledEdge? lex d key) := by
  obtain ⟨known, first, rest⟩ := bind_eq_ok.mp built
  rw [get?_restoreAll (orderly.added d).nodup rest, Register.get?_foldl_erase,
    get?_addRows first, Register.get?_empty, Option.or_none]
  by_cases gone : key ∈ store.removedIn d <;> simp [gone, tabledEdge?, Register.get?]

omit [Scalar K] in
/-- An edge of the caller's can be put back whatever the edges are. -/
theorem restore_isOk_iff {es : Edges K} {row : EdgeKey × Conversion K} :
    (∃ es', restore lex es row = .ok es') ↔
      ∃ ends, parseEnds lex row.2.src row.2.dest = .ok ends := by
  constructor
  · rintro ⟨es', made⟩
    obtain ⟨ends, parsed, _⟩ := bind_eq_ok.mp made
    exact ⟨ends, parsed⟩
  · rintro ⟨_ | ends, parsed⟩
    · exact ⟨es, bind_eq_ok.mpr ⟨none, parsed, rfl⟩⟩
    · exact ⟨_, bind_eq_ok.mpr ⟨some ends, parsed, rfl⟩⟩

omit [Scalar K] in
theorem restoreAll_isOk_iff {rows : List (EdgeKey × Conversion K)} {es : Edges K} :
    (∃ es', rows.foldlM (restore lex) es = .ok es') ↔
      ∀ row ∈ rows, ∃ ends, parseEnds lex row.2.src row.2.dest = .ok ends :=
  foldlM_isOk_iff (f := restore lex)
    (P := fun row => ∃ ends, parseEnds lex row.2.src row.2.dest = .ok ends)
    fun _ _ => restore_isOk_iff

/-- A row can be added whatever the edges are. -/
theorem addRow_isOk_iff {es : Edges K} {row : EdgeKey × Factor K} :
    (∃ es', addRow lex d es row = .ok es') ↔
      ∃ ends, parseEnds lex row.1.1 row.1.2 = .ok ends ∧
        ∀ u v, ends = some (u, v) → ∃ c, unprefixed d u v row.2 = .ok c := by
  constructor
  · rintro ⟨es', made⟩
    obtain ⟨ends, parsed, made⟩ := bind_eq_ok.mp made
    refine ⟨ends, parsed, ?_⟩
    rintro u v rfl
    obtain ⟨c, conversion, _⟩ := bind_eq_ok.mp made
    exact ⟨c, conversion⟩
  · rintro ⟨_ | ⟨u, v⟩, parsed, converts⟩
    · exact ⟨es, bind_eq_ok.mpr ⟨none, parsed, rfl⟩⟩
    · obtain ⟨c, conversion⟩ := converts u v rfl
      exact ⟨_, bind_eq_ok.mpr ⟨some (u, v), parsed, bind_eq_ok.mpr ⟨c, conversion, rfl⟩⟩⟩

theorem addRows_isOk_iff {rows : List (EdgeKey × Factor K)} {es : Edges K} :
    (∃ es', rows.foldlM (addRow lex d) es = .ok es') ↔
      ∀ row ∈ rows, ∃ ends, parseEnds lex row.1.1 row.1.2 = .ok ends ∧
        ∀ u v, ends = some (u, v) → ∃ c, unprefixed d u v row.2 = .ok c :=
  foldlM_isOk_iff (f := addRow lex d)
    (P := fun row => ∃ ends, parseEnds lex row.1.1 row.1.2 = .ok ends ∧
      ∀ u v, ends = some (u, v) → ∃ c, unprefixed d u v row.2 = .ok c)
    fun _ _ => addRow_isOk_iff

/-- Building succeeds if the rows can all be read and the ends of the caller's edges looked up. -/
theorem build_isOk_iff :
    (∃ es, store.build lex d = .ok es) ↔
      (∃ known, (rows lex d).foldlM (addRow lex d) .empty = .ok known) ∧
        ∀ row ∈ (store.addedIn d).rows, ∃ ends, parseEnds lex row.2.src row.2.dest = .ok ends := by
  constructor
  · rintro ⟨es, built⟩
    obtain ⟨known, first, rest⟩ := bind_eq_ok.mp built
    exact ⟨⟨known, first⟩, restoreAll_isOk_iff.mp ⟨es, rest⟩⟩
  · rintro ⟨⟨known, first⟩, named⟩
    obtain ⟨es, rest⟩ := restoreAll_isOk_iff.mpr named
    exact ⟨es, bind_eq_ok.mpr ⟨known, first, rest⟩⟩

end EdgeStore

end Metrology
