import Metrology.Proofs.Graph.Everywhere
import Metrology.Proofs.Unit.Dimension
import Metrology.Proofs.Unit.RoundTrip

/-!
# The edges of the store

Every edge that the store keeps or builds is kept under its two ends, each of which can be parsed
and has the dimension that the edge is kept under. Which edges a dimension has does not depend on
which dimensions were built before.
-/
namespace Metrology

variable {K : Type} {lex : Lexicon K} {d : Dimension}

namespace EdgeStore

section Building

variable [Scalar K]

/-- The edges of a dimension as they are registered, whether built or not. -/
def current (lex : Lexicon K) (store : EdgeStore K) (d : Dimension) : Except Error (Edges K) :=
  ((edgesOf lex d).apply store).1

/-- What building does to a store, and what it gives. -/
theorem edgesOf_spec (lex : Lexicon K) (store : EdgeStore K) (d : Dimension) :
    (edgesOf lex d).apply store =
      if store.built.contains d then (.ok ((store.edges.get? d).getD .empty), store)
      else match store.build lex d with
        | .ok es => (.ok es, { store with edges := store.edges.put d es, built := store.built ++ [d] })
        | .error e => (.error e, store) := by
  rw [edgesOf, Action.apply_bind, Action.apply_get]
  dsimp only
  split
  next => rfl
  next =>
    rw [Action.apply_bind, Action.apply_lift]
    cases store.build lex d <;> rfl

theorem current_eq (lex : Lexicon K) (store : EdgeStore K) (d : Dimension) :
    current lex store d =
      if store.built.contains d then .ok ((store.edges.get? d).getD .empty)
      else store.build lex d := by
  rw [current, edgesOf_spec]
  split
  next => rfl
  next => cases store.build lex d <;> rfl

/-- Building one dimension changes what is registered in none. -/
theorem current_edgesOf (lex : Lexicon K) (store : EdgeStore K) (d e : Dimension) :
    current lex ((edgesOf lex d).apply store).2 e = current lex store e := by
  rw [edgesOf_spec]
  split
  next => rfl
  next unbuilt =>
    cases built : store.build lex d with
    | error => rfl
    | ok es =>
      rw [current_eq, current_eq]
      by_cases same : e = d
      · subst same
        rw [if_neg unbuilt, built]
        simp
      · have others : (store.built ++ [d]).contains e = store.built.contains e := by simp [same]
        rw [others, Register.get?_put, if_neg (Ne.symm same)]
        rfl

theorem Everywhere.current {P : Dimension → EdgeKey × Conversion K → Prop} {store : EdgeStore K}
    (everywhere : Everywhere P store) (tables : RowsGive lex P) {es : Edges K}
    (registered : current lex store d = .ok es) : ∀ row ∈ es.rows, P d row :=
  (everywhere_edgesOf tables d).answer everywhere registered

/-- A store whose registered edges are as they were in another. -/
def SameEdges (lex : Lexicon K) (store store' : EdgeStore K) : Prop :=
  ∀ d, current lex store' d = current lex store d

theorem keepsSame_edgesOf (lex : Lexicon K) (store : EdgeStore K) (d : Dimension) :
    (edgesOf lex d).Keeps (SameEdges lex store) fun _ => True :=
  fun store' same => ⟨fun e => (current_edgesOf lex store' d e).trans (same e), fun _ _ => trivial⟩

end Building

end EdgeStore

variable [Field K]

/-- The text can be parsed and has the dimension. -/
def Lexicon.Measured (lex : Lexicon K) (d : Dimension) (text : String) : Prop :=
  ∃ u, lex.parse text = .ok u ∧ u.Sound lex.Names ∧ u.HasDimension d

namespace EdgeStore

/-- An edge that is kept under its ends, both of the dimension. -/
def Joins (lex : Lexicon K) (d : Dimension) (row : EdgeKey × Conversion K) : Prop :=
  row.1 = (row.2.src, row.2.dest) ∧ lex.Measured d row.2.src ∧ lex.Measured d row.2.dest

/-- What a store over the lexicon always satisfies. -/
structure Kept (lex : Lexicon K) (store : EdgeStore K) : Prop where
  edges : ∀ d es, store.edges.get? d = some es → ∀ row ∈ es.rows, Joins lex d row
  added : ∀ d, ∀ row ∈ (store.addedIn d).rows, Joins lex d row

theorem kept_empty : Kept lex empty :=
  ⟨fun d es built => by simp [empty] at built, fun _ _ mem => absurd mem List.not_mem_nil⟩

/-- That is something that holds of every edge. -/
theorem kept_eq : Kept lex = Everywhere (Joins lex) :=
  funext fun _ => propext
    ⟨fun ⟨edges, added⟩ => ⟨edges, added⟩, fun ⟨edges, added⟩ => ⟨edges, added⟩⟩

/-- A text that a row names, if it can be parsed, has the dimension of the row. -/
def Tells (lex : Lexicon K) (d : Dimension) (text : String) : Prop :=
  ∀ u, lex.parse text = .ok u → u.HasDimension d

end EdgeStore

variable [Scalar K]

namespace Lexicon

theorem Tabled.measured_write (tabled : lex.Tabled) {u : Compound K} (sound : u.Sound lex.Names)
    (measured : u.HasDimension d) : lex.Measured d (u.write .ascii) := by
  refine ⟨_, tabled.parse_write .ascii sound, sound.reordered, fun χ character => ?_⟩
  rw [Compound.valueOf_reordered sound, measured χ character]

theorem Tabled.hasDimension_withoutPrefixes (tabled : lex.Tabled) {u v : Compound K}
    (sound : u.Sound lex.Names) (measured : u.HasDimension d) (made : u.withoutPrefixes = .ok v) :
    v.HasDimension d := by
  intro χ character
  rw [Compound.valueOf_withoutPrefixes tabled.identifies (fun _ _ _ => character.ne_zero _)
    (fun _ _ names => names.withoutPrefix) sound made]
  exact measured χ character

/-- The nodes that stand for the units of a dimension have that dimension. -/
theorem Tabled.measured_asciiSymbol (tabled : lex.Tabled) {u : NamedUnit K}
    (found : lex.find? u.asciiSymbol = some u) : lex.Measured u.dimension u.asciiSymbol := by
  cases scalar : u.isScalar with
  | false =>
    have sound := tabled.sound_of_parse (tabled.parse_asciiSymbol found scalar)
    exact ⟨_, tabled.parse_asciiSymbol found scalar, sound, fun χ _ => by simp⟩
  | true =>
    have empty : u.asciiSymbol = "" := by simpa [NamedUnit.isScalar] using scalar
    rw [empty, tabled.dimensionless_of_isScalar found scalar]
    exact ⟨_, parse_empty lex, Compound.sound_one, fun χ character => by
      rw [character.one]
      rfl⟩

/-- What a unit stands for has its dimension. -/
theorem Tabled.hasDimension_of_expansion (tabled : lex.Tabled) {s e : String} {u : NamedUnit K}
    {c : Compound K} (found : lex.find? s = some u) (expands : u.expansion = some e)
    (read : lex.parse e = .ok c) : c.HasDimension u.dimension := by
  obtain ⟨_, r, declared⟩ := tabled.declared _ u found
  obtain ⟨_, _, _, _, expansion, _, coded⟩ := declared.fields
  have measured := Catalogue.dimension_of_expansion r declared.1 e (by rw [← expansion, expands]; rfl)
  rw [coded] at measured
  exact tabled.hasDimension_of_text (fun _ isRow => isRow) measured read

end Lexicon

namespace EdgeStore

/-- The edge without prefixes joins units of the same dimension. -/
theorem joins_unprefixed (tabled : lex.Tabled) {src dest : Compound K} {factor : Factor K}
    {c : Conversion K} (soundSrc : src.Sound lex.Names) (soundDest : dest.Sound lex.Names)
    (measuredSrc : src.HasDimension d) (measuredDest : dest.HasDimension d)
    (made : unprefixed d src dest factor = .ok c) : Joins lex d ((c.src, c.dest), c) := by
  unfold unprefixed at made
  split at made
  · obtain ⟨m, _, made⟩ := bind_eq_ok.mp made
    obtain ⟨n, _, made⟩ := bind_eq_ok.mp made
    obtain ⟨f, _, made⟩ := bind_eq_ok.mp made
    obtain ⟨u, bareSrc, made⟩ := bind_eq_ok.mp made
    obtain ⟨v, bareDest, made⟩ := bind_eq_ok.mp made
    obtain rfl := Except.ok.inj made
    exact ⟨rfl,
      tabled.measured_write (soundSrc.withoutPrefixes bareSrc)
        (tabled.hasDimension_withoutPrefixes soundSrc measuredSrc bareSrc),
      tabled.measured_write (soundDest.withoutPrefixes bareDest)
        (tabled.hasDimension_withoutPrefixes soundDest measuredDest bareDest)⟩
  · obtain rfl := Except.ok.inj made
    exact ⟨rfl, tabled.measured_write soundSrc measuredSrc,
      tabled.measured_write soundDest measuredDest⟩

open Catalogue in
/-- The tables name units of the dimension they are for. -/
theorem tells_of_conversion (tabled : lex.Tabled) {row : ConversionRow}
    (mem : row ∈ conversions d) {text : String} (named : text ∈ [row.src, row.dest]) :
    Tells lex d text := by
  obtain ⟨q, isQuantity, isRow, coded⟩ := mem_conversions mem
  have measured := dimension_of_conversion q isQuantity row isRow text named
  rw [coded] at measured
  exact fun u read => tabled.hasDimension_of_text
    (fun r isIn => mem_units_of_rowsAround isQuantity isIn) measured read

theorem tells_of_rows (tabled : lex.Tabled) {row : EdgeKey × Factor K} (mem : row ∈ rows lex d) :
    Tells lex d row.1.1 ∧ Tells lex d row.1.2 := by
  rcases List.mem_append.mp mem with mem | mem
  · obtain ⟨c, isRow, rfl⟩ := List.mem_map.mp mem
    exact ⟨tells_of_conversion tabled isRow (by simp), tells_of_conversion tabled isRow (by simp)⟩
  · obtain ⟨u, listed, mem⟩ := List.mem_filterMap.mp mem
    obtain ⟨e, expands, rfl⟩ := Option.map_eq_some_iff.mp mem
    obtain ⟨found, rfl⟩ := tabled.find?_of_ofDimension listed
    refine ⟨fun v read => ?_, fun v read => ?_⟩
    · obtain ⟨w, parsed, _, measured⟩ := tabled.measured_asciiSymbol found
      obtain rfl := Except.ok.inj (parsed.symm.trans read)
      exact measured
    · exact tabled.hasDimension_of_expansion found expands read

theorem rowsGive_joins (tabled : lex.Tabled) : RowsGive lex (Joins lex) := by
  intro d row mem u v c src dest made
  obtain ⟨tellsSrc, tellsDest⟩ := tells_of_rows tabled mem
  exact joins_unprefixed tabled (tabled.sound_of_parse src) (tabled.sound_of_parse dest)
    (tellsSrc u src) (tellsDest v dest) made

theorem additionGives_joins (tabled : lex.Tabled) (src dest : String) (factor : Factor K) :
    AdditionGives lex (Joins lex) src dest factor :=
  fun _ _ _ _ isSrc isDest dimensionSrc dimensionDest _ made =>
    joins_unprefixed tabled (tabled.sound_of_parse isSrc) (tabled.sound_of_parse isDest)
      (Compound.hasDimension_of_dimension dimensionSrc)
      (Compound.hasDimension_of_dimension dimensionDest) made

theorem keeps_edgesOf (tabled : lex.Tabled) (d : Dimension) :
    (edgesOf lex d).Keeps (Kept lex) fun es => ∀ row ∈ es.rows, Joins lex d row := by
  rw [kept_eq]
  exact everywhere_edgesOf (rowsGive_joins tabled) d

theorem keeps_add (tabled : lex.Tabled) (src dest : String) (factor : Factor K) :
    (add lex src dest factor).Keeps (Kept lex) fun _ => True := by
  rw [kept_eq]
  exact everywhere_add (rowsGive_joins tabled) (additionGives_joins tabled src dest factor)

theorem keeps_remove (tabled : lex.Tabled) (src dest : String) :
    (remove lex src dest).Keeps (Kept lex) fun _ => True := by
  rw [kept_eq]
  exact everywhere_remove (rowsGive_joins tabled) src dest

omit [Field K] in
/-- An addition that is refused changes nothing that is registered. -/
theorem failsIn_add (store : EdgeStore K) (src dest : String) (factor : Factor K) :
    (add lex src dest factor).FailsIn (SameEdges lex store) := by
  refine .bind (.lift fun u read => read) fun u _ => ?_
  refine .bind (.lift fun v read => read) fun v _ => ?_
  refine .bind (.lift fun d given => given) fun d _ => ?_
  refine .bind (.lift fun e given => given) fun e _ => ?_
  dsimp only
  split
  next => exact .bind (Q := fun _ => False) (.throw _) fun _ bad => bad.elim
  next =>
    split
    next => exact .bind (Q := fun _ => False) (.throw _) fun _ bad => bad.elim
    next =>
      refine .bind (keepsSame_edgesOf lex store d) fun es _ => ?_
      refine .bind (.lift fun c made => made) fun c _ => ?_
      exact .of_total fun _ => ⟨_, rfl⟩

omit [Field K] in
theorem failsIn_remove (store : EdgeStore K) (src dest : String) :
    (remove lex src dest).FailsIn (SameEdges lex store) := by
  refine .bind (.lift fun u read => read) fun u _ => ?_
  refine .bind (.lift fun w bare => bare) fun w _ => ?_
  refine .bind (.lift fun v read => read) fun v _ => ?_
  refine .bind (.lift fun x bare => bare) fun x _ => ?_
  refine .bind (.lift fun d given => given) fun d _ => ?_
  refine .bind (keepsSame_edgesOf lex store d) fun es _ => ?_
  exact .of_total fun _ => ⟨_, rfl⟩

end EdgeStore

end Metrology
