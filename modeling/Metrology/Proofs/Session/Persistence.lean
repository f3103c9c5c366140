import Metrology.Proofs.Session.Transitivity

/-!
# What a further conversion leaves

Adding a conversion puts an edge between two symbols and takes none away, so all that was joined stays
joined. A conversion can be lost only by merging: terms that join from now on leave another unit, with
another symbol. Units that lead to SI base units do so still, whatever they merge into.
-/
namespace Metrology.Session

variable {K : Type} [Scalar K] {o o' s : Session K} {d : Dimension} {u v : Compound K}

/-! ### Adding extends -/

theorem Extends.trans {o'' : Session K} (first : Extends o o') (second : Extends o' o'') :
    Extends o o'' where
  lexicon := second.lexicon.trans first.lexicon
  edges d es registered := by
    obtain ⟨es', registered', kept⟩ := first.edges d es registered
    rw [← first.lexicon] at registered'
    obtain ⟨es'', registered'', kept'⟩ := second.edges d es' registered'
    rw [first.lexicon] at registered''
    exact ⟨es'', registered'', fun key edge => kept' key (kept key edge)⟩

/-- A question leaves the registries as they are. -/
theorem SameRegistries.ask (same : SameRegistries o s) (q : Query K) :
    SameRegistries o (q.after s) := by
  have kept : KeptByLookups fun t : Session K => SameRegistries o
      { o with lexicon := t.lexicon, quantityTypes := t.quantityTypes, store := t.store } :=
    keptByLookups_of_store (P := fun lex types store => SameRegistries o
      { o with lexicon := lex, quantityTypes := types, store := store })
      fun _ _ d _ same => ⟨same.edgesOf d, fun _ _ => trivial⟩
  exact (kept.ask (same.of_eq rfl rfl rfl) q).of_eq rfl rfl rfl

theorem sameRegistries_asked (asked : List (Query K)) (s : Session K) :
    SameRegistries s (perform (asked.map .ask) s) := by
  have run (t : Session K) (same : SameRegistries s t) :
      SameRegistries s (perform (asked.map .ask) t) := by
    induction asked generalizing t with
    | nil => exact same
    | cons q rest ih => exact ih (q.after t) (same.ask q)
  exact run s (.refl s)

/-- The conversion once it was added. -/
abbrev adding (src dest : String) (factor : Factor K) : Deed K :=
  .change (.addConversion src dest factor)

/-- What adding a conversion that is made does: its edge is put to those of its dimension. -/
theorem exists_added {src dest : String} {factor : Factor K}
    (made : (adding src dest factor).isMade s = true) :
    ∃ u v d es c, s.lexicon.parse src = .ok u ∧ s.lexicon.parse dest = .ok v ∧ u.dimension = .ok d ∧
      v.dimension = .ok d ∧ EdgeStore.unprefixed d u v factor = .ok c ∧
      EdgeStore.current s.lexicon s.store d = .ok es ∧
      ((adding src dest factor).after s).lexicon = s.lexicon ∧
      ∀ e, EdgeStore.current s.lexicon ((adding src dest factor).after s).store e =
        if d = e then .ok (es.put (c.src, c.dest) c) else EdgeStore.current s.lexicon s.store e := by
  have run := (Change.addConversion src dest factor).comesTo s
  rw [Deed.isMade] at made
  rw [Deed.after]
  generalize (Change.addConversion src dest factor).action.apply s = outcome at run made ⊢
  cases run with
  | edgeRefused => cases made
  | @edgeAdded _ _ _ c store edit =>
    obtain ⟨u, v, d, es, built, read, read', own, own', given, unprefixed, rfl⟩ :=
      EdgeStore.kept_of_add edit
    have isBuilt := (EdgeStore.built_of_edgesOf given).1
    have earlier (e : Dimension) :
        EdgeStore.current s.lexicon built e = EdgeStore.current s.lexicon s.store e := by
      rw [← EdgeStore.current_edgesOf s.lexicon s.store d e, given]
    refine ⟨u, v, d, es, c, read, read', own, own', unprefixed, ?_, rfl, fun e => ?_⟩
    · rw [EdgeStore.current, given]
    · exact (EdgeStore.current_keep isBuilt es c e).trans (by rw [earlier])

/-- Where a conversion was added there are the edges of before and maybe another one. -/
theorem extends_adding {src dest : String} {factor : Factor K}
    (made : (adding src dest factor).isMade s = true) :
    Extends s ((adding src dest factor).after s) := by
  obtain ⟨_, _, d, es, c, _, _, _, _, _, own, lexicon, edges⟩ := exists_added made
  refine ⟨lexicon, fun e old registered => ?_⟩
  rw [edges e]
  split
  next here =>
    subst here
    obtain rfl := Except.ok.inj (own.symm.trans registered)
    refine ⟨_, rfl, fun key edge => ?_⟩
    rw [Register.get?_put]
    split
    next => rfl
    next => exact edge
  next => exact ⟨old, registered, fun _ edge => edge⟩

/-! ### Adding keeps conversions -/

/-- Units that merge as before, or that lead to SI base units, stay tied. -/
theorem Extends.decides (ext : Extends o o') (sound : u.Sound o'.lexicon.Names)
    (sound' : v.Sound o'.lexicon.Names)
    (stays : (o'.merged u = o.merged u ∧ o'.merged v = o.merged v) ∨ o.Grounded u ∧ o.Grounded v)
    {c : Conversion K} (before : o.Decides d u v (some c)) {found : Option (Conversion K)}
    (later : o'.Decides d u v found) : found.isSome := by
  obtain ⟨m, n, merges, merges', tied⟩ := before
  obtain ⟨m', n', isM, isN, tied'⟩ := later
  refine tied'.mpr ?_
  rcases stays with ⟨alike, alike'⟩ | ⟨grounded, grounded'⟩
  · obtain rfl := Except.ok.inj (merges.symm.trans (alike.symm.trans isM))
    obtain rfl := Except.ok.inj (merges'.symm.trans (alike'.symm.trans isN))
    exact ext.tied (tied.mp rfl)
  · exact (tied_iff (terms_of_merged sound isM).2 (terms_of_merged sound' isN).2).mpr
      (.inr (.inr ⟨(ext.grounded grounded).merged sound isM, (ext.grounded grounded').merged sound' isN⟩))

/-- **Adding a conversion loses none.** A session is made from any systems, units and conversions are
added to it and taken out and it is asked questions, in any order, and some may fail. One unit converts
to another. After further questions a conversion is added, and after any more the unit is asked for
again. The units that are compared between two changes do not share symbols. If the two units merge
into the same as before, or all their units lead to SI base units, then there still is a conversion. -/
theorem conversions_persist {systems : List MeasurementSystem} (made : ofSystems systems = .ok s)
    {deeds : List (Deed K)} (plain : WithoutLoading deeds) {a b : UnitRef K}
    {since asked : List (Query K)} {src dest : String} {factor : Factor K}
    (known : ∀ q ∈ .conversion a b :: (pending [] deeds s ++ asked), ∀ ref ∈ q.refs,
      (perform deeds s).lexicon.Refers ref)
    (apart : TellsApart (perform deeds s).lexicon (.conversion a b :: pending [] deeds s))
    (apart' : TellsApart (perform deeds s).lexicon (.conversion a b :: asked))
    (added : (adding src dest factor).isMade (perform (since.map .ask) (perform deeds s)) = true)
    (stays : (∀ x ∈ [a, b], ∀ m, (perform deeds s).Merges x m →
        ((adding src dest factor).after (perform (since.map .ask) (perform deeds s))).Merges x m) ∨
      ∀ x ∈ [a, b], ∀ u, (perform deeds s).lexicon.deref x = .ok u → (perform deeds s).Grounded u)
    {c : Conversion K} {found : Option (Conversion K)}
    (before : reply [] a b (perform deeds s) = .ok (some c))
    (later : reply asked a b
      ((adding src dest factor).after (perform (since.map .ask) (perform deeds s))) = .ok found) :
    ∃ c', found = some c' := by
  set t := perform deeds s with isT
  set t' := (adding src dest factor).after (perform (since.map .ask) t) with isT'
  have orderly : t.Orderly := (orderly_ofSystems made).perform deeds
  have orderly' : t'.Orderly := (orderly.perform (since.map .ask)).deed (adding src dest factor)
  have ext : Extends t t' := (sameRegistries_asked since t).extends.1.trans (extends_adding added)
  have lexicon : t'.lexicon = t.lexicon := ext.lexicon
  obtain ⟨u, v, d, ⟨isA, own⟩, ⟨isB, _⟩, decides⟩ := decides_of_reply (orderly_ofSystems made)
    (blank_of_ofSystems made).2 plain (fun q mem => known q (by grind)) (by rwa [List.append_nil])
    before
  have known' : ∀ q ∈ .conversion a b :: (pending [] [] t' ++ asked), ∀ ref ∈ q.refs,
      t'.lexicon.Refers ref := by
    rw [lexicon]
    exact fun q mem => known q (by
      rcases List.mem_cons.mp mem with rfl | asks
      · exact List.mem_cons_self
      · exact List.mem_cons_of_mem _ (List.mem_append_right _ asks))
  have plain' : WithoutLoading ([] : List (Deed K)) := fun _ => List.not_mem_nil
  obtain ⟨u', v', d', ⟨isA', own'⟩, ⟨isB', _⟩, decides'⟩ := decides_of_reply orderly'
    (Deed.forgotten added) plain' known' (lexicon ▸ apart') later
  replace isA' : t.lexicon.deref a = .ok u' := lexicon ▸ isA'
  replace isB' : t.lexicon.deref b = .ok v' := lexicon ▸ isB'
  obtain rfl := Except.ok.inj (isA.symm.trans isA')
  obtain rfl := Except.ok.inj (isB.symm.trans isB')
  obtain rfl := Except.ok.inj (own.symm.trans own')
  have sound {x : UnitRef K} (mem : x ∈ [a, b]) {w : Compound K} (meant : t.lexicon.deref x = .ok w) :
      w.Sound t'.lexicon.Names := by
    rw [lexicon]
    exact orderly.consistent.indexed.sound_of_deref
      (known _ List.mem_cons_self x mem) meant
  have merges {x : UnitRef K} (mem : x ∈ [a, b]) {w m : Compound K}
      (meant : t.lexicon.deref x = .ok w) (merged : t.merged w = .ok m)
      (alike : ∀ x ∈ [a, b], ∀ m, t.Merges x m → t'.Merges x m) : t'.merged w = t.merged w := by
    obtain ⟨w', meant', merged'⟩ := alike x mem m ⟨w, meant, merged⟩
    rw [lexicon] at meant'
    obtain rfl := Except.ok.inj (meant.symm.trans meant')
    rw [merged, merged']
  have kept : found.isSome := by
    refine ext.decides (sound (by simp) isA) (sound (by simp) isB) ?_ decides decides'
    obtain ⟨m, n, isM, isN, _⟩ := decides
    refine stays.imp (fun alike => ?_) fun grounded => ?_
    · exact ⟨merges (x := a) (by simp) isA isM alike, merges (x := b) (by simp) isB isN alike⟩
    · exact ⟨grounded a (by simp) u isA, grounded b (by simp) v isB⟩
  exact Option.isSome_iff_exists.mp kept

/-- Pixels were asked about. -/
def consulted : Session ℚ :=
  perform ([.conversion (.symbol "P*px/p") (.symbol "px")].map .ask) (perform linking typographer)

/-- Then they were related to picas. -/
def relinked : Session ℚ := (adding "P" "px" ⟨16, 0⟩).after consulted

/-- A pica of pixels to the point is still related to pixels once picas are. -/
theorem pica_still_by_pixels :
    (adding "P" "px" ⟨16, 0⟩).isMade consulted = true ∧
      (∃ c, reply [] (.symbol "P*px/p") (.symbol "px") (perform linking typographer) = .ok (some c)) ∧
      ∃ c, reply [] (.symbol "P*px/p") (.symbol "px") relinked = .ok (some c) := by
  have run : (adding "P" "px" ⟨16, 0⟩).isMade consulted = true ∧
      reply [] (.symbol "P*px/p") (.symbol "px") (perform linking typographer) =
        .ok (some ⟨"L", "P*px/p", "px", ⟨12, 0⟩⟩) ∧
      reply [] (.symbol "P*px/p") (.symbol "px") relinked =
        .ok (some ⟨"L", "P*px/p", "px", ⟨12, 0⟩⟩) ∧
      ∀ text ∈ ["P*px/p", "px"],
        ((perform linking typographer).mergesInto (.symbol text)).toOption.isSome = true ∧
          (perform linking typographer).mergesInto (.symbol text) =
            relinked.mergesInto (.symbol text) := by decide +kernel
  obtain ⟨added, before, later, merges⟩ := run
  have named : ∀ q ∈ [(.conversion (.symbol "P*px/p") (.symbol "px") : Query ℚ)], ∀ ref ∈ q.refs,
      ∃ text ∈ ["P*px/p", "px", "P", "p2", "P*px", "p"], ref = .symbol text := by
    simp [Query.refs]
  have apart := tellsApart_linking named
  have orderly := (orderly_ofSystems ofSystems_typographer).perform linking
  have tabled : relinked.lexicon.Tabled := by
    rw [relinked, (extends_adding added).lexicon, consulted, (sameRegistries_asked _ _).lexicon]
    exact tabled_linking
  have alike {text : String} (listed : text ∈ ["P*px/p", "px"]) {m : Compound ℚ}
      (own : (perform linking typographer).Merges (.symbol text) m) :
      relinked.Merges (.symbol text) m := by
    have computed := eq_ok_getD (merges text listed).1 .one
    have computed' := (merges text listed).2.symm.trans computed
    obtain ⟨u, meant, merged⟩ := own
    obtain ⟨u', meant', merged'⟩ := merges_of_mergesInto orderly forgotten_linking tabled_linking
      (show Lexicon.Refers _ (.symbol text) from trivial) computed
    obtain rfl := Except.ok.inj (meant.symm.trans meant')
    obtain rfl := Except.ok.inj (merged.symm.trans merged')
    exact merges_of_mergesInto ((orderly.perform _).deed _) (Deed.forgotten added) tabled
      (show Lexicon.Refers _ (.symbol text) from trivial) computed'
  have known : ∀ q ∈ Query.conversion (.symbol "P*px/p") (.symbol "px") ::
      (pending [] linking typographer ++ []), ∀ ref ∈ q.refs,
        (perform linking typographer).lexicon.Refers ref := by
    rw [pending_linking]
    intro q mem ref isRef
    obtain ⟨text, _, rfl⟩ := named q mem ref isRef
    trivial
  have stays : ∀ x ∈ [.symbol "P*px/p", .symbol "px"], ∀ m,
      (perform linking typographer).Merges x m → relinked.Merges x m := by
    intro x mem m own
    simp only [List.mem_cons, List.not_mem_nil, or_false] at mem
    rcases mem with rfl | rfl
    · exact alike (by simp) own
    · exact alike (by simp) own
  have apart' : TellsApart (perform linking typographer).lexicon
      (.conversion (.symbol "P*px/p") (.symbol "px") :: pending [] linking typographer) := by
    rw [pending_linking]
    exact apart
  obtain ⟨c, given⟩ := conversions_persist ofSystems_typographer plain_linking known apart' apart
    added (.inl stays) before later
  exact ⟨added, ⟨_, before⟩, c, given ▸ later⟩

/-- An area of pixels by points is related to picas. -/
def tiled : Session ℚ := (adding "px*p" "P2" ⟨1/192, 0⟩).after typographer

/-- What is found before and after a conversion is added, each time after some questions. -/
def beforeAndAfter (s : Session ℚ) (asked : List (Query ℚ)) (added : Deed ℚ)
    (asked' : List (Query ℚ)) (a b : String) :
    Except Error (Option (Conversion ℚ)) × Bool × Except Error (Option (Conversion ℚ)) :=
  let question : Query ℚ := .conversion (.symbol a) (.symbol b)
  let t := perform ((asked ++ [question]).map .ask) s
  (reply asked (.symbol a) (.symbol b) s, added.isMade t,
    reply asked' (.symbol a) (.symbol b) (added.after t))

/-- Conversions are lost where terms come to join, and where another unit of the same symbol was asked
about: before, with the conversion found for it, or later. -/
theorem conversions_do_not_persist :
    beforeAndAfter tiled [] (adding "px" "p" ⟨3/4, 0⟩) [] "px*p" "P2" =
      (.ok (some ⟨"L2", "px*p", "P2", ⟨1/192, 0⟩⟩), true, .ok none) ∧
    beforeAndAfter areas [.conversion (.symbol "px3/p") (.symbol "P2")] (adding "P2" "px2" ⟨256, 0⟩) []
      "p-1*px3" "P2" = (.ok (some ⟨"L2", "px3/p", "P2", ⟨3/1024, 0⟩⟩), true, .ok none) ∧
    beforeAndAfter areas [] (adding "P2" "px2" ⟨256, 0⟩)
      [.conversion (.symbol "p-1*px3") (.symbol "P2")] "px3/p" "P2" =
      (.ok (some ⟨"L2", "px3/p", "P2", ⟨3/1024, 0⟩⟩), true, .ok none) := by
  decide +kernel

end Metrology.Session
