import Metrology.Proofs.Catalogue.Consistency
import Metrology.Proofs.Graph.Editing

/-!
# Building after a reordering

The edges of a dimension do not depend on the order in which its units were registered, provided that
the ASCII symbol of every unit with an expansion is read as that unit: then no two expansions give an
edge with the same ends.
-/
namespace Metrology

variable {K : Type} [Scalar K] {lex lex' : Lexicon K} {store : EdgeStore K} {d : Dimension}

/-- The ASCII symbol of a unit is read as the unit. -/
def Lexicon.ReadsBack (lex : Lexicon K) (u : NamedUnit K) : Prop :=
  lex.parse u.asciiSymbol = .ok ⟨[⟨u, none, 1⟩]⟩

namespace EdgeStore

/-! ### Edges with distinct ends -/

omit [Scalar K] in
theorem lastEdge?_append (key : EdgeKey) (cs cs' : List (Conversion K)) :
    lastEdge? key (cs ++ cs') = (lastEdge? key cs').or (lastEdge? key cs) := by
  rw [lastEdge?, List.reverse_append, List.find?_append]
  rfl

omit [Scalar K] in
theorem lastEdge?_eq_some_iff {key : EdgeKey} {cs : List (Conversion K)} {c : Conversion K}
    (nodup : (cs.map fun c => (c.src, c.dest)).Nodup) :
    lastEdge? key cs = some c ↔ c ∈ cs ∧ (c.src, c.dest) = key := by
  constructor
  · intro found
    exact ⟨List.mem_reverse.mp (List.mem_of_find?_eq_some found), by simpa using List.find?_some found⟩
  · rintro ⟨mem, own⟩
    have isSome : (lastEdge? key cs).isSome :=
      List.find?_isSome.mpr ⟨c, List.mem_reverse.mpr mem, by simpa using own⟩
    obtain ⟨c', found⟩ := Option.isSome_iff_exists.mp isSome
    have mem' : c' ∈ cs := List.mem_reverse.mp (List.mem_of_find?_eq_some found)
    have own' : (c'.src, c'.dest) = key := by simpa using List.find?_some found
    rw [found, List.inj_on_of_nodup_map nodup mem' mem (own'.trans own.symm)]

omit [Scalar K] in
theorem lastEdge?_of_perm {cs cs' : List (Conversion K)} (perm : cs'.Perm cs)
    (nodup : (cs.map fun c => (c.src, c.dest)).Nodup) (key : EdgeKey) :
    lastEdge? key cs' = lastEdge? key cs := by
  have nodup' : (cs'.map fun c => (c.src, c.dest)).Nodup := (perm.map _).nodup_iff.mpr nodup
  ext c
  rw [lastEdge?_eq_some_iff nodup', lastEdge?_eq_some_iff nodup, perm.mem_iff]

/-! ### The edges of expansions -/

/-- The rows of the tables for a dimension. -/
def tabledRows (d : Dimension) : List (EdgeKey × Factor K) :=
  (Catalogue.conversions d).map fun row => ((row.src, row.dest), Factor.read (Scalar.ofDecimal row.factor))

/-- The row that the expansion of a unit gives. -/
def expansionRow? (u : NamedUnit K) : Option (EdgeKey × Factor K) :=
  u.expansion.map fun e => ((u.asciiSymbol, e), Factor.read u.expansionMultiplier)

theorem rows_eq (lex : Lexicon K) (d : Dimension) :
    rows lex d = tabledRows d ++ (lex.ofDimension d).filterMap expansionRow? := rfl

omit [Scalar K] in
/-- Taking the prefixes off a unit without one leaves it. -/
theorem withoutPrefixes_of_readsBack {u : NamedUnit K} (back : lex.ReadsBack u) :
    (⟨[⟨u, none, 1⟩]⟩ : Compound K).withoutPrefixes = .ok ⟨[⟨u, none, 1⟩]⟩ := by
  have visible : (⟨u, none, 1⟩ : Term K).isScalar = false := by
    refine Bool.eq_false_iff.mpr fun isScalar => ?_
    have empty : u.asciiSymbol = "" := by simpa [Term.isScalar, NamedUnit.isScalar] using isScalar
    rw [Lexicon.ReadsBack, empty, Lexicon.parse_empty] at back
    cases back
  have made : (⟨u, none, 1⟩ : Term K).withoutPrefix = .ok ⟨u, none, 1⟩ := by
    simp [Term.withoutPrefix, Term.make, maxExponent]
  have leveled : Compound.ofTerms [(⟨u, none, 1⟩ : Term K)] = .ok ⟨[⟨u, none, 1⟩]⟩ := by
    simp [Compound.ofTerms, Compound.piles, visible, Compound.pile, Compound.level, Term.withExponent,
      Term.make, maxExponent, Except.map, pure, Except.pure, bind, Except.bind]
  refine bind_eq_ok.mpr ⟨[⟨u, none, 1⟩], mapM_eq_ok.mpr (.cons made .nil), leveled⟩

/-- The edge of an expansion starts at its unit. -/
theorem src_of_expansion {u : NamedUnit K} (back : lex.ReadsBack u) {e : String} {f : Factor K}
    {c : Conversion K} (edge : edgeOf? lex d ((u.asciiSymbol, e), f) = some c) :
    c.src = u.asciiSymbol := by
  have written : (⟨[⟨u, none, 1⟩]⟩ : Compound K).write .ascii = u.asciiSymbol := by
    simp [Compound.write, Term.write, Term.writeWith, Term.scalingSymbol]
  have read : (lex.parse u.asciiSymbol).toOption = some ⟨[⟨u, none, 1⟩]⟩ := by rw [back]; rfl
  simp only [edgeOf?, read, Option.bind_eq_bind, Option.bind_some, Option.bind_eq_some_iff] at edge
  obtain ⟨dest, _, edge⟩ := edge
  cases made : unprefixed d ⟨[⟨u, none, 1⟩]⟩ dest f with
  | error e => simp [made, Except.toOption] at edge
  | ok c' =>
    obtain rfl : c' = c := by simpa [made, Except.toOption] using edge
    unfold unprefixed at made
    split at made
    next =>
      rw [withoutPrefixes_of_readsBack back] at made
      obtain ⟨_, _, made⟩ := bind_eq_ok.mp made
      obtain ⟨_, _, made⟩ := bind_eq_ok.mp made
      obtain ⟨_, _, made⟩ := bind_eq_ok.mp made
      obtain ⟨_, bare, made⟩ := bind_eq_ok.mp made
      obtain ⟨_, _, made⟩ := bind_eq_ok.mp made
      obtain rfl := Except.ok.inj bare
      rw [← Except.ok.inj made, written]
    next => rw [← Except.ok.inj made, written]

/-- Expansions of distinct units give edges with distinct ends. -/
theorem nodup_expansions {us : List (NamedUnit K)} (distinct : (us.map (·.asciiSymbol)).Nodup)
    (back : ∀ u ∈ us, u.isExpandable → lex.ReadsBack u) :
    (((us.filterMap expansionRow?).filterMap (edgeOf? lex d)).map
      fun c => (c.src, c.dest)).Nodup := by
  have starts : ∀ u ∈ us, ∀ c, (expansionRow? u).bind (edgeOf? lex d) = some c →
      c.src = u.asciiSymbol := by
    intro u mem c edge
    cases expansion : u.expansion with
    | none => simp [expansionRow?, expansion] at edge
    | some e =>
      have own : edgeOf? lex d ((u.asciiSymbol, e), Factor.read u.expansionMultiplier) = some c := by
        simpa [expansionRow?, expansion] using edge
      exact src_of_expansion (back u mem (by simp [NamedUnit.isExpandable, expansion])) own
  rw [List.filterMap_filterMap, List.Nodup, List.pairwise_map, List.pairwise_filterMap]
  refine (List.pairwise_map.mp distinct).imp_of_mem fun {u v} mem mem' other c edge c' edge' same => ?_
  have src := congrArg Prod.fst same
  rw [starts u mem c edge, starts v mem' c' edge'] at src
  exact other src

/-! ### Building -/

/-- The same units, read alike, give the same edges in the same order. -/
theorem build_of_units (units : lex'.units = lex.units) (parse : lex'.parse = lex.parse) :
    store.build lex' d = store.build lex d := by
  have ends : parseEnds lex' = parseEnds lex := by
    funext src dest
    simp only [parseEnds, parse]
  have add : addRow lex' d = addRow lex d := by
    funext es row
    simp only [addRow, ends]
  have restored : restore lex' = restore lex := by
    funext es row
    simp only [restore, ends]
  have rows : rows lex' d = rows lex d := by
    simp only [rows_eq, Lexicon.ofDimension, units]
  simp only [build, add, restored, rows]

/-- **The order of registration is immaterial.** The same units, registered in another order and
found under the same symbols, give the same edges. -/
theorem sameMap_of_perm (orderly : store.Orderly) (consistent : lex.Consistent)
    (units : lex'.units.rows.Perm lex.units.rows) (parse : lex'.parse = lex.parse)
    (back : ∀ u ∈ lex.units.values, u.isExpandable → lex.ReadsBack u) :
    SameMap (store.build lex d) (store.build lex' d) := by
  have ends : parseEnds lex' = parseEnds lex := by
    funext src dest
    simp only [parseEnds, parse]
  have edges : edgeOf? lex' d = edgeOf? lex d := by
    funext row
    simp only [edgeOf?, parse]
  have isNamed : isNamed lex' = isNamed lex := by
    funext c
    simp only [EdgeStore.isNamed, parse]
  have add : addRow lex' d = addRow lex d := by
    funext es row
    simp only [addRow, ends]
  have members : (lex'.ofDimension d).Perm (lex.ofDimension d) := (units.map _).filter _
  have expansions := members.filterMap expansionRow?
  have distinct : ((lex.ofDimension d).map (·.asciiSymbol)).Nodup :=
    consistent.distinct.sublist (List.filter_sublist.map _)
  have tabled (key : EdgeKey) : tabledEdge? lex' d key = tabledEdge? lex d key := by
    simp only [tabledEdge?, rows_eq, edges, List.filterMap_append, lastEdge?_append]
    rw [lastEdge?_of_perm (expansions.filterMap _) (nodup_expansions distinct fun u mem =>
      back u (List.mem_of_mem_filter mem))]
  have overlaid : overlay lex' = overlay lex := by
    funext last known
    simp only [overlay, isNamed]
  have same (key : EdgeKey) {es es' : Edges K} (built : store.build lex d = .ok es)
      (built' : store.build lex' d = .ok es') : es.get? key = es'.get? key := by
    rw [get?_build orderly built, get?_build orderly built', tabled, overlaid]
  have succeeds : (∃ es, store.build lex d = .ok es) ↔ ∃ es, store.build lex' d = .ok es := by
    rw [build_isOk_iff, build_isOk_iff, addRows_isOk_iff, addRows_isOk_iff, ends]
    refine and_congr_left fun _ => forall_congr' fun row => ?_
    simp only [rows_eq, List.mem_append, expansions.mem_iff]
  refine ⟨fun es built => ?_, fun es built => ?_⟩
  · obtain ⟨es', built'⟩ := succeeds.mp ⟨es, built⟩
    exact ⟨es', built', fun key => same key built built'⟩
  · obtain ⟨es', built'⟩ := succeeds.mpr ⟨es, built⟩
    exact ⟨es', built', fun key => same key built' built⟩

end EdgeStore

end Metrology
