import Metrology.Proofs.Graph.Editing
import Metrology.Proofs.Unit.Total

/-!
# Dimensions of edges

An edge relates two units of its dimension, both without prefixes. The caller's edges were written
down by an earlier lexicon. Where a later one gives the symbols in them the same meaning, an edge
that is put back still relates the units it was made for.
-/
namespace Metrology

variable {K : Type} {lex lex' : Lexicon K} {d : Dimension}

namespace Lexicon

/-- The ASCII symbols of the units, but for the scalar, can be read. -/
def Legible (lex : Lexicon K) : Prop :=
  ∀ s u, lex.find? s = some u → u.isScalar = false → Scanner.IsSymbol u.asciiSymbol.toList

/-- A symbol that means something in both means the same. -/
def Concords (lex lex' : Lexicon K) : Prop :=
  ∀ s r r', lex.resolve s = .ok r → lex'.resolve s = .ok r' → r = r'

/-- The unit is registered and stands without a prefix. -/
def NamesBare (lex : Lexicon K) (u : NamedUnit K) (scaling : Option (Prefix K)) : Prop :=
  lex.Names u scaling ∧ scaling = none

/-- The text is the symbol of a product of registered units without prefixes, whose dimensions add up
to the given one. -/
def Writes (lex : Lexicon K) (d : Dimension) (text : String) : Prop :=
  ∃ u : Compound K, text = u.write .ascii ∧ u.Sound lex.NamesBare ∧ u.total = d

end Lexicon

namespace Compound

variable {u v : Compound K}

theorem Sound.bare (sound : u.Sound lex.Names) (plain : u.hasPrefixes = false) :
    u.Sound lex.NamesBare := by
  refine ⟨fun t mem => ?_, sound.distinct⟩
  obtain ⟨own, visible⟩ := sound.terms t mem
  have bare : t.scaling = none := by simpa using List.any_eq_false.mp plain t mem
  exact ⟨⟨⟨own.base, bare⟩, own.nonzero, own.range, own.accepted⟩, visible⟩

theorem Sound.plain (sound : u.Sound lex.NamesBare) : u.hasPrefixes = false := by
  refine List.any_eq_false.mpr fun t mem => ?_
  simp [(sound.terms t mem).1.base.2]

theorem Sound.bare_of_withoutPrefixes (sound : u.Sound lex.Names) (made : u.withoutPrefixes = .ok v) :
    v.Sound lex.NamesBare := by
  obtain ⟨ts, all, product⟩ := bind_eq_ok.mp made
  refine sound_of_ofTerms (fun t mem => ?_) product
  obtain ⟨w, inside, same⟩ := exists_of_mem_mapM all mem
  exact Term.sound_of_make ⟨(sound.terms w inside).1.base.withoutPrefix, rfl⟩ same

end Compound

namespace Lexicon

/-- Texts that are read in both are read alike. -/
theorem Concords.parse_eq (concords : lex.Concords lex') {text : String} {u v : Compound K}
    (read : lex.parse text = .ok u) (read' : lex'.parse text = .ok v) : u = v := by
  obtain ⟨parsed, isParsed, rest⟩ := bind_eq_ok.mp read
  obtain ⟨ts, all, product⟩ := bind_eq_ok.mp rest
  obtain ⟨parsed', isParsed', rest'⟩ := bind_eq_ok.mp read'
  obtain ⟨ts', all', product'⟩ := bind_eq_ok.mp rest'
  obtain rfl := Except.ok.inj (isParsed.symm.trans isParsed')
  have same : ts = ts' := by
    clear read read' rest rest' product product' isParsed isParsed'
    induction parsed generalizing ts ts' with
    | nil =>
      obtain rfl := Except.ok.inj all
      exact Except.ok.inj all'
    | cons p parsed ih =>
      obtain _ | ⟨head, tail⟩ := mapM_eq_ok.mp all
      obtain _ | ⟨head', tail'⟩ := mapM_eq_ok.mp all'
      obtain ⟨r, resolved, made⟩ := bind_eq_ok.mp head
      obtain ⟨r', resolved', made'⟩ := bind_eq_ok.mp head'
      obtain rfl := concords _ r r' resolved resolved'
      rw [Except.ok.inj (made.symm.trans made'),
        ih _ (mapM_eq_ok.mpr tail) _ (mapM_eq_ok.mpr tail')]
  rw [same] at product
  exact Except.ok.inj (product.symm.trans product')

/-- The symbol of a product without prefixes is read as that product. -/
theorem Legible.parse_write (legible : lex.Legible) {u : Compound K}
    (sound : u.Sound lex.NamesBare) : lex.parse (u.write .ascii) = .ok u.reordered := by
  have spelled : ∀ t ∈ u.terms, t.spelling .ascii = t.unit.asciiSymbol := by
    intro t mem
    simp [Term.spelling, Term.scalingSymbol, (sound.terms t mem).1.base.2]
  refine parse_write_of_resolve .ascii sound (fun t mem => ?_) fun t mem => ?_
  · obtain ⟨own, visible⟩ := sound.terms t mem
    refine ⟨?_, own.nonzero, own.range⟩
    rw [Term.content, spelled t mem]
    exact legible _ _ own.base.1.1 visible
  · obtain ⟨own, _⟩ := sound.terms t mem
    rw [spelled t mem, own.base.2, resolve, own.base.1.1]

/-- Units that stay registered are still written. -/
theorem Writes.mono (found : ∀ s u, lex.find? s = some u → lex'.find? s = some u) {text : String}
    (writes : lex.Writes d text) : lex'.Writes d text := by
  obtain ⟨u, rfl, sound, total⟩ := writes
  refine ⟨u, rfl, ⟨fun t mem => ?_, sound.distinct⟩, total⟩
  obtain ⟨own, visible⟩ := sound.terms t mem
  have names : lex'.NamesBare t.unit t.scaling :=
    ⟨⟨found _ _ own.base.1.1, fun p scaled => by rw [own.base.2] at scaled; cases scaled⟩, own.base.2⟩
  exact ⟨⟨names, own.nonzero, own.range, own.accepted⟩, visible⟩

/-- A text that an earlier lexicon wrote and a later one reads is written by the later one too. -/
theorem Writes.reread (legible : lex.Legible) (concords : lex.Concords lex') (indexed : lex'.Indexed)
    {text : String} (writes : lex.Writes d text) {v : Compound K} (read : lex'.parse text = .ok v) :
    lex'.Writes d text := by
  obtain ⟨u, rfl, sound, total⟩ := writes
  obtain rfl := concords.parse_eq (legible.parse_write sound) read
  refine ⟨u.reordered, (u.write_reordered .ascii).symm, ?_, ?_⟩
  · exact (indexed.sound_of_parse read).bare sound.reordered.plain
  · rw [Compound.total_reordered sound, total]

/-- A unit reads as one of the dimension, of registered units without prefixes. -/
def Reads (lex : Lexicon K) [Scalar K] (d : Dimension) (text : String) : Prop :=
  ∃ u, lex.parse text = .ok u ∧ u.hasPrefixes = false ∧ u.total = d ∧
    (d.InRange → (∀ t ∈ u.terms, ∃ e, t.dimension = .ok e) → u.dimension = .ok d) ∧
    ∀ t ∈ u.terms, lex.find? t.unit.asciiSymbol = some t.unit

variable [Scalar K]

theorem Writes.reads (legible : lex.Legible) {text : String} (writes : lex.Writes d text) :
    lex.Reads d text := by
  obtain ⟨u, rfl, sound, total⟩ := writes
  have sum : u.reordered.total = d := (Compound.total_reordered sound).trans total
  refine ⟨u.reordered, legible.parse_write sound, sound.reordered.plain, sum,
    fun inRange own => Compound.dimension_eq_ok_iff.mpr ⟨own, sum, inRange⟩, fun t mem => ?_⟩
  exact (sound.reordered.terms t mem).1.base.1.1

/-- Rows of the tables and the expansions of units, if both their ends are read, relate units of the
dimension they are for. -/
def Truthful (lex : Lexicon K) : Prop :=
  ∀ d, ∀ row ∈ EdgeStore.rows lex d, ∀ u v, lex.parse row.1.1 = .ok u → lex.parse row.1.2 = .ok v →
    u.total = d ∧ v.total = d

end Lexicon

namespace EdgeStore

/-- The edge is kept under its ends, both of which are written by the lexicon. -/
structure Relates (lex : Lexicon K) (d : Dimension) (row : EdgeKey × Conversion K) : Prop where
  key : row.1 = (row.2.src, row.2.dest)
  src : lex.Writes d row.2.src
  dest : lex.Writes d row.2.dest

theorem Relates.mono (found : ∀ s u, lex.find? s = some u → lex'.find? s = some u)
    {row : EdgeKey × Conversion K} (relates : Relates lex d row) : Relates lex' d row :=
  ⟨relates.key, relates.src.mono found, relates.dest.mono found⟩

variable [Scalar K] {store : EdgeStore K} {lexicons : List (Lexicon K)}

/-- Leaving out prefixes keeps the dimension. -/
theorem relates_unprefixed {u v : Compound K} {factor : Factor K} {c : Conversion K}
    (soundSrc : u.Sound lex.Names) (soundDest : v.Sound lex.Names) (totalSrc : u.total = d)
    (totalDest : v.total = d) (made : unprefixed d u v factor = .ok c) :
    Relates lex d ((c.src, c.dest), c) := by
  unfold unprefixed at made
  split at made
  next =>
    obtain ⟨m, _, made⟩ := bind_eq_ok.mp made
    obtain ⟨n, _, made⟩ := bind_eq_ok.mp made
    obtain ⟨f, _, made⟩ := bind_eq_ok.mp made
    obtain ⟨u', bareSrc, made⟩ := bind_eq_ok.mp made
    obtain ⟨v', bareDest, made⟩ := bind_eq_ok.mp made
    obtain rfl := Except.ok.inj made
    refine ⟨rfl, ⟨u', rfl, soundSrc.bare_of_withoutPrefixes bareSrc, ?_⟩,
      ⟨v', rfl, soundDest.bare_of_withoutPrefixes bareDest, ?_⟩⟩
    · rw [Compound.total_withoutPrefixes soundSrc bareSrc, totalSrc]
    · rw [Compound.total_withoutPrefixes soundDest bareDest, totalDest]
  next plain =>
    obtain rfl := Except.ok.inj made
    simp only [Bool.or_eq_true, not_or, Bool.not_eq_true] at plain
    exact ⟨rfl, ⟨u, rfl, soundSrc.bare plain.1, totalSrc⟩, ⟨v, rfl, soundDest.bare plain.2, totalDest⟩⟩

/-- The caller's edges were each made by one of the lexicons, and the edges that are built relate
units of the present one. -/
structure Tended (lexicons : List (Lexicon K)) (lex : Lexicon K) (store : EdgeStore K) : Prop where
  added : ∀ d, ∀ row ∈ (store.addedIn d).rows, ∃ maker ∈ lexicons, Relates maker d row
  built : ∀ d es, store.built.contains d = true → store.edges.get? d = some es →
    ∀ row ∈ es.rows, Relates lex d row

omit [Scalar K] in
theorem tended_empty : Tended lexicons lex empty :=
  ⟨fun _ _ mem => absurd mem List.not_mem_nil, fun _ _ built => by simp [empty] at built⟩

omit [Scalar K] in
theorem Tended.reload (tended : Tended lexicons lex store) : Tended lexicons lex' store.reload :=
  ⟨tended.added, fun _ _ built => by simp [EdgeStore.reload] at built⟩

omit [Scalar K] in
theorem Tended.mono (found : ∀ s u, lex.find? s = some u → lex'.find? s = some u)
    (tended : Tended lexicons lex store) : Tended lexicons lex' store :=
  ⟨tended.added, fun d es built known row mem => (tended.built d es built known row mem).mono found⟩

/-- What the lexicons of a run have to be like. -/
structure Plain (lexicons : List (Lexicon K)) : Prop where
  legible : ∀ lex ∈ lexicons, lex.Legible
  truthful : ∀ lex ∈ lexicons, lex.Truthful
  concords : ∀ lex ∈ lexicons, ∀ lex' ∈ lexicons, lex.Concords lex'

variable (plain : Plain lexicons) (visited : lex ∈ lexicons) (indexed : lex.Indexed)

include plain visited indexed

/-- An edge of the caller's is put back only if its ends still mean the units it was made for. -/
theorem Tended.build (tended : Tended lexicons lex store) {es : Edges K}
    (built : store.build lex d = .ok es) : ∀ row ∈ es.rows, Relates lex d row := by
  refine forall_build (fun row mem u v c src dest made => ?_) (fun row mem u v src dest => ?_) built
  · obtain ⟨totalSrc, totalDest⟩ := plain.truthful lex visited d row mem u v src dest
    exact relates_unprefixed (indexed.sound_of_parse src) (indexed.sound_of_parse dest) totalSrc
      totalDest made
  · obtain ⟨maker, isMaker, relates⟩ := tended.added d row mem
    have legible := plain.legible maker isMaker
    have concords := plain.concords maker isMaker lex visited
    exact ⟨relates.key, relates.src.reread legible concords indexed src,
      relates.dest.reread legible concords indexed dest⟩

theorem Tended.edgesOf (tended : Tended lexicons lex store) (d : Dimension) :
    Tended lexicons lex ((EdgeStore.edgesOf lex d).apply store).2 := by
  rw [edgesOf_spec]
  split
  next => exact tended
  next =>
    cases built : store.build lex d with
    | error e => exact tended
    | ok es =>
      have relates := tended.build plain visited indexed built
      refine ⟨tended.added, fun e es' isBuilt known => ?_⟩
      rw [Register.get?_put] at known
      split at known
      next same =>
        obtain rfl := Option.some.inj known
        exact same ▸ relates
      next other =>
        refine tended.built e es' ?_ known
        simpa [Ne.symm other] using isBuilt

theorem Tended.current (tended : Tended lexicons lex store) {es : Edges K}
    (registered : EdgeStore.current lex store d = .ok es) : ∀ row ∈ es.rows, Relates lex d row := by
  rw [current_eq] at registered
  split at registered
  next built =>
    obtain rfl := Except.ok.inj registered
    cases known : store.edges.get? d with
    | none => exact fun _ mem => absurd mem List.not_mem_nil
    | some es => exact tended.built d es built known
  next => exact tended.build plain visited indexed registered

theorem Tended.add (tended : Tended lexicons lex store) (src dest : String) (factor : Factor K) :
    Tended lexicons lex ((EdgeStore.add lex src dest factor).apply store).2 := by
  rcases add_cases lex src dest factor store with
    refused | ⟨u, v, d, es, built, c, read, read', given, given', _, edges, made, run⟩
  · exact refused.keeps tended (tended.edgesOf plain visited indexed)
  · have relates := relates_unprefixed (indexed.sound_of_parse read) (indexed.sound_of_parse read')
      (Compound.dimension_eq_ok_iff.mp given).2.1 (Compound.dimension_eq_ok_iff.mp given').2.1 made
    have old := tended.edgesOf plain visited indexed d
    have registered : EdgeStore.current lex store d = .ok es := by rw [EdgeStore.current, edges]
    have rows := tended.current plain visited indexed registered
    rw [edges] at old
    rw [run]
    refine ⟨fun e row mem => ?_, fun e es' isBuilt known => ?_⟩
    · simp only [addedIn, keep, Register.get?_put] at mem
      split at mem
      next same =>
        obtain rfl := same
        rcases Register.mem_rows_put mem with rfl | mem
        · exact ⟨lex, visited, relates⟩
        · exact old.added d row mem
      next => exact old.added e row mem
    · simp only [keep, Register.get?_put] at known
      split at known
      next same =>
        obtain rfl := Option.some.inj known
        exact same ▸ forall_put relates rows
      next => exact old.built e es' isBuilt known

theorem Tended.remove (tended : Tended lexicons lex store) (src dest : String) :
    Tended lexicons lex ((EdgeStore.remove lex src dest).apply store).2 := by
  rcases remove_cases lex src dest store with refused | ⟨d, key, es, built, _, edges, run⟩
  · exact refused.keeps tended (tended.edgesOf plain visited indexed)
  · have old := tended.edgesOf plain visited indexed d
    have registered : EdgeStore.current lex store d = .ok es := by rw [EdgeStore.current, edges]
    have rows := tended.current plain visited indexed registered
    rw [edges] at old
    rw [run]
    refine ⟨fun e row mem => ?_, fun e es' isBuilt known => ?_⟩
    · simp only [addedIn, drop, Register.get?_put] at mem
      split at mem
      next same => exact same ▸ old.added d row (Register.mem_rows_erase mem)
      next => exact old.added e row mem
    · simp only [drop, Register.get?_put] at known
      split at known
      next same =>
        obtain rfl := Option.some.inj known
        exact same ▸ fun row mem => rows row (Register.mem_rows_erase mem)
      next => exact old.built e es' isBuilt known

end EdgeStore

end Metrology
