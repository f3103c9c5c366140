import Metrology.Proofs.Session.Convertibility
import Metrology.Proofs.Session.Recent

/-!
# Conversions one after the other

Merged units are linked by conversions between their symbols or by SI base units. Links of one kind
may be chained, and where both ends lead to SI base units or neither does, so may links of either
kind.
-/
namespace Metrology.Session

variable {K : Type} [Scalar K] {o s : Session K} {d : Dimension} {m n k : Compound K}

theorem Coupled.trans {a b c : String} (first : o.Coupled d a b) (second : o.Coupled d b c) :
    o.Coupled d a c := by
  rcases first with rfl | ⟨es, registered, joined⟩
  · exact second
  · rcases second with rfl | ⟨es', registered', joined'⟩
    · exact .inr ⟨es, registered, joined⟩
    · obtain rfl := Except.ok.inj (registered.symm.trans registered')
      exact .inr ⟨es, registered, joined.trans joined'⟩

/-- Units with one symbol consist of the same terms, in order or not. -/
def WrittenApart (m n : Compound K) : Prop := m.write .ascii = n.write .ascii → m.reordered = n.reordered

/-- Merged units are linked by their symbols without prefixes or by SI base units. -/
theorem Tied.linked (tidy : o.Tidy m) (tidy' : o.Tidy n) (apart : WrittenApart m n)
    (tied : o.Tied d m n) :
    o.Coupled d (m.bare.write .ascii) (n.bare.write .ascii) ∨ o.Grounded m ∧ o.Grounded n := by
  rcases (tied_iff tidy tidy').mp tied with same | linked
  · exact .inl (.inl (Compound.write_bare_of_reordered (apart (write_eq_of_same same)) .ascii))
  · exact linked

/-- Links may be chained whose ends both lead to SI base units, or neither. -/
theorem Tied.trans (tidy : o.Tidy m) (tidy' : o.Tidy n) (tidy'' : o.Tidy k) (apart : WrittenApart m n)
    (apart' : WrittenApart n k) (bases : o.Grounded m ↔ o.Grounded k) (first : o.Tied d m n)
    (second : o.Tied d n k) : o.Tied d m k := by
  refine (tied_iff tidy tidy'').mpr (.inr ?_)
  rcases first.linked tidy tidy' apart with along | ⟨grounded, _⟩
  · rcases second.linked tidy' tidy'' apart' with along' | ⟨_, grounded'⟩
    · exact .inl (along.trans along')
    · exact .inr ⟨bases.mpr grounded', grounded'⟩
  · exact .inr ⟨grounded, bases.mp grounded⟩

/-- **Conversions may be chained.** A session is made from any systems, units and conversions are added
to it and taken out and it is asked questions, in any order, and some may fail. Then three units are
asked about, after further questions or none, and the units that are compared since the last change do
not share symbols; nor do those that the three merge into, but for the order of their terms. If the
first converts to the second and the second to the third, and the first and the third merge into units
of which both lead to SI base units or neither does, then the first converts to the third. -/
theorem conversions_chain {systems : List MeasurementSystem} (made : ofSystems systems = .ok s)
    {deeds : List (Deed K)} (plain : WithoutLoading deeds) {a b c : UnitRef K}
    {asked asked' asked'' : List (Query K)}
    (known : ∀ q ∈ [.conversion a b, .conversion b c, .conversion a c] ++
      (pending [] deeds s ++ (asked ++ (asked' ++ asked''))), ∀ ref ∈ q.refs,
      (perform deeds s).lexicon.Refers ref)
    (apart : TellsApart (perform deeds s).lexicon ([.conversion a b, .conversion b c, .conversion a c] ++
      (pending [] deeds s ++ (asked ++ (asked' ++ asked'')))))
    (written : ∀ x ∈ [a, b, c], ∀ y ∈ [a, b, c], ∀ m n, (perform deeds s).Merges x m →
      (perform deeds s).Merges y n → WrittenApart m n)
    (bases : ∀ m n, (perform deeds s).Merges a m → (perform deeds s).Merges c n →
      ((perform deeds s).Grounded m ↔ (perform deeds s).Grounded n))
    {x y : Conversion K} {found : Option (Conversion K)}
    (first : reply asked a b (perform deeds s) = .ok (some x))
    (second : reply asked' b c (perform deeds s) = .ok (some y))
    (whole : reply asked'' a c (perform deeds s) = .ok found) : ∃ z, found = some z := by
  have orderly := orderly_ofSystems made
  have indexed := (orderly.perform deeds).consistent.indexed
  have decides {p q : UnitRef K} {since : List (Query K)} {found : Option (Conversion K)}
      (part : ∀ r ∈ .conversion p q :: (pending [] deeds s ++ since),
        r ∈ [.conversion a b, .conversion b c, .conversion a c] ++
          (pending [] deeds s ++ (asked ++ (asked' ++ asked''))))
      (given : reply since p q (perform deeds s) = .ok found) := decides_of_reply orderly
    (blank_of_ofSystems made).2 plain (fun r mem => known r (part r mem))
    (fun r mem r' mem' => apart r (part r mem) r' (part r' mem')) given
  obtain ⟨u, v, d, ⟨isA, own⟩, ⟨isB, dimension⟩, related⟩ := decides (by grind) first
  obtain ⟨v', w, d', ⟨isB', dimension'⟩, ⟨isC, _⟩, related'⟩ := decides (by grind) second
  obtain ⟨u', w', d'', ⟨isA', own'⟩, ⟨isC', _⟩, related''⟩ := decides (by grind) whole
  obtain rfl := Except.ok.inj (isA.symm.trans isA')
  obtain rfl := Except.ok.inj (isB.symm.trans isB')
  obtain rfl := Except.ok.inj (isC.symm.trans isC')
  obtain rfl := Except.ok.inj (dimension.symm.trans dimension')
  obtain rfl := Except.ok.inj (own.symm.trans own')
  have sound {ref : UnitRef K} {z : Compound K} (mem : ref ∈ [a, b, c])
      (meant : (perform deeds s).lexicon.deref ref = .ok z) :
      z.Sound (perform deeds s).lexicon.Names := by
    refine indexed.sound_of_deref ?_ meant
    simp only [List.mem_cons, List.not_mem_nil, or_false] at mem
    rcases mem with rfl | rfl | rfl
    · exact known (.conversion ref b) (by simp) ref (by simp [Query.refs])
    · exact known (.conversion a ref) (by simp) ref (by simp [Query.refs])
    · exact known (.conversion a ref) (by simp) ref (by simp [Query.refs])
  obtain ⟨m, n, mergesA, mergesB, tied⟩ := related
  obtain ⟨n', k, mergesB', mergesC, tied'⟩ := related'
  obtain rfl := Except.ok.inj (mergesB.symm.trans mergesB')
  have isM : (perform deeds s).Merges a m := ⟨u, isA, mergesA⟩
  have isN : (perform deeds s).Merges b n := ⟨v, isB, mergesB⟩
  have isK : (perform deeds s).Merges c k := ⟨w, isC, mergesC⟩
  have chained := (tied.mp rfl).trans (terms_of_merged (sound (by simp) isA) mergesA).2
    (terms_of_merged (sound (by simp) isB) mergesB).2
    (terms_of_merged (sound (by simp) isC) mergesC).2
    (written a (by simp) b (by simp) m n isM isN) (written b (by simp) c (by simp) n k isN isK)
    (bases m k isM isK) (tied'.mp rfl)
  exact Option.isSome_iff_exists.mp (related''.isSome_iff.mpr ⟨m, k, mergesA, mergesC, chained⟩)

/-- Units of the tables share a symbol only if their terms are ordered differently. -/
theorem writtenApart_of_merges (tabled : o.lexicon.Tabled) {x y : UnitRef K}
    (refers : o.lexicon.Refers x) (refers' : o.lexicon.Refers y) (isM : o.Merges x m)
    (isN : o.Merges y n) : WrittenApart m n := by
  obtain ⟨u, meant, merges⟩ := isM
  obtain ⟨v, meant', merges'⟩ := isN
  have tidy := (terms_of_merged (tabled.indexed.sound_of_deref refers meant) merges).2
  have tidy' := (terms_of_merged (tabled.indexed.sound_of_deref refers' meant') merges').2
  intro same
  have read := tabled.parse_write .ascii tidy.sound
  rw [same, tabled.parse_write .ascii tidy'.sound] at read
  exact (Except.ok.inj read).symm

/-- Pixels and picas are related to points. -/
def linking : List (Deed ℚ) :=
  [Event.addConversion "px" "p" ⟨3/4, 0⟩, .addConversion "P" "p" ⟨12, 0⟩].map Event.deed

theorem lexicon_linking : (perform linking typographer).lexicon = typographer.lexicon := by
  rw [linking, perform_deeds, lexicon_after]

theorem tabled_linking : (perform linking typographer).lexicon.Tabled := by
  rw [lexicon_linking]
  exact tabled_ofSystems ofSystems_typographer

theorem plain_linking : WithoutLoading linking := by simp [WithoutLoading, linking, Event.deed]

/-- No question is pending, as the last conversion is made. -/
theorem made_linking : (pending [] linking typographer).isEmpty = true ∧
    (Event.addConversion "P" "p" ⟨12, 0⟩).isMade
      ((Event.addConversion "px" "p" ⟨3/4, 0⟩).after typographer) = true := by decide +kernel

theorem pending_linking : pending [] linking typographer = [] := List.isEmpty_iff.mp made_linking.1

theorem forgotten_linking : (perform linking typographer).Forgotten := by
  rw [linking, perform_deeds, after, List.foldl_cons, List.foldl_cons, List.foldl_nil]
  exact forgotten_of_isMade made_linking.2

theorem tellsApart_linking {questions : List (Query ℚ)} (named : ∀ q ∈ questions, ∀ ref ∈ q.refs,
    ∃ text ∈ ["P*px/p", "px", "P", "p2", "P*px", "p"], ref = .symbol text) :
    TellsApart (perform linking typographer).lexicon questions := by
  rw [lexicon_linking]
  exact tellsApart_of_texts (tabled_ofSystems ofSystems_typographer) _ named ordered_typeset

/-- A pica of pixels to the point goes to pixels and pixels go to picas. -/
theorem pica_by_pixels :
    ofSystems [.typography] = .ok typographer ∧ WithoutLoading linking ∧
      (∃ x y, reply [] (.symbol "P*px/p") (.symbol "px") (perform linking typographer) = .ok (some x) ∧
        reply [] (.symbol "px") (.symbol "P") (perform linking typographer) = .ok (some y)) ∧
      ∃ z, reply [] (.symbol "P*px/p") (.symbol "P") (perform linking typographer) = .ok (some z) := by
  have named : ∀ q ∈ [Query.conversion (.symbol "P*px/p") (.symbol "px"),
      .conversion (.symbol "px") (.symbol "P"), .conversion (.symbol "P*px/p") (.symbol "P")] ++
      (pending [] linking typographer ++ ([] ++ ([] ++ []))), ∀ ref ∈ q.refs,
        ∃ text ∈ ["P*px/p", "px", "P", "p2", "P*px", "p"], ref = .symbol text := by
    simp [pending_linking, Query.refs]
  have refers (x : UnitRef ℚ) (mem : x ∈ [.symbol "P*px/p", .symbol "px", .symbol "P"]) :
      (perform linking typographer).lexicon.Refers x := by
    simp only [List.mem_cons, List.not_mem_nil, or_false] at mem
    rcases mem with rfl | rfl | rfl <;> trivial
  have replies : reply [] (.symbol "P*px/p") (.symbol "px") (perform linking typographer) =
        .ok (some ⟨"L", "P*px/p", "px", ⟨12, 0⟩⟩) ∧
      reply [] (.symbol "px") (.symbol "P") (perform linking typographer) =
        .ok (some ⟨"L", "px", "P", ⟨1/16, 0⟩⟩) ∧
      reply [] (.symbol "P*px/p") (.symbol "P") (perform linking typographer) =
        .ok (some ⟨"L", "P*px/p", "P", ⟨3/4, 0⟩⟩) ∧
      ∀ text ∈ ["P*px/p", "P"],
        (perform linking typographer).leadsToBase (.symbol text) = .ok false := by decide +kernel
  obtain ⟨first, second, whole, leads⟩ := replies
  have orderly := (orderly_ofSystems ofSystems_typographer).perform linking
  have neither {text : String} (listed : text ∈ ["P*px/p", "P"]) {m : Compound ℚ}
      (merges : (perform linking typographer).Merges (.symbol text) m) :
      (perform linking typographer).Grounded m ↔ false = true :=
    grounded_of_leadsToBase orderly forgotten_linking tabled_linking
      (show Lexicon.Refers _ (.symbol text) from trivial) (leads text listed) merges
  obtain ⟨z, given⟩ := conversions_chain ofSystems_typographer plain_linking
    (fun q mem ref isRef => by obtain ⟨text, _, rfl⟩ := named q mem ref isRef; trivial)
    (tellsApart_linking named)
    (fun x mem y mem' m n isM isN =>
      writtenApart_of_merges tabled_linking (refers x mem) (refers y mem') isM isN)
    (fun m n isM isN => (neither (by simp) isM).trans (neither (by simp) isN).symm) first second whole
  exact ⟨ofSystems_typographer, plain_linking, ⟨_, _, first, second⟩, z, given ▸ whole⟩

/-- A length, for a session without the SI. -/
def metre : NamedUnit ℚ := ⟨"metre", "m", "m", none, .ofAxis .length, 0, [], none, 1, none⟩

/-- Points lead to metres, while pixels are only related to picas, by their areas. -/
def plotter : Session ℚ :=
  perform [.change (.addUnit metre), .change (.addConversion "p" "m" ⟨7/20000, 0⟩),
    .change (.addConversion "P" "p" ⟨12, 0⟩), .change (.addConversion "px2" "P2" ⟨1/256, 0⟩)]
    typographer

/-- A mass that takes prefixes, and a mass with the symbol that it has with one of them. -/
def namesakes : Session ℚ :=
  perform [.change (.addUnit ⟨"gram", "g", "g", none, .ofAxis .mass, .metric, [], none, 1, none⟩),
    .change (.addUnit ⟨"mug", "ug", "ug", none, .ofAxis .mass, 0, [], none, 1, none⟩)] typographer

/-- Three units asked about in a row, after some questions. -/
def inTurn (asked : List (Query ℚ)) (a b c : String) (s : Session ℚ) :
    List (Except Error (Option (Conversion ℚ))) :=
  let first : Query ℚ := .conversion (.symbol a) (.symbol b)
  let second : Query ℚ := .conversion (.symbol b) (.symbol c)
  [reply asked (.symbol a) (.symbol b) s, reply (asked ++ [first]) (.symbol b) (.symbol c) s,
    reply (asked ++ [first, second]) (.symbol a) (.symbol c) s]

/-- A chain breaks where only one of its ends leads to SI base units, where different units are taken
for one by their symbol, and where a conversion was not found between units of these symbols. -/
theorem conversions_do_not_chain :
    inTurn [] "px2" "P2" "p2" plotter = [.ok (some ⟨"L2", "px2", "P2", ⟨1/256, 0⟩⟩),
      .ok (some ⟨"L2", "P2", "p2", ⟨144, 0⟩⟩), .ok none] ∧
    inTurn [] "ug" "μg2/g" "g" namesakes = [.ok (some ⟨"M", "ug", "ug2/g", ⟨1000000, 0⟩⟩),
      .ok (some ⟨"M", "ug2/g", "g", ⟨1/1000000000000, 0⟩⟩), .ok none] ∧
    inTurn [.conversion (.symbol "p-1*px3") (.symbol "P2")] "px3/p" "px2" "P2" areas =
      [.ok (some ⟨"L2", "px3/p", "px2", ⟨3/4, 0⟩⟩), .ok (some ⟨"L2", "px2", "P2", ⟨1/256, 0⟩⟩),
        .ok none] := by
  decide +kernel

end Metrology.Session
