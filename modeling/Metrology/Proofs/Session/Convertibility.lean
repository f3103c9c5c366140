import Metrology.Proofs.Session.Extending
import Metrology.Proofs.Session.Granting
import Metrology.Proofs.Session.Tending
import Metrology.Proofs.Session.Unchanged

/-!
# Where conversions are found

Questions keep what is known right, so a conversion is found exactly where the registries relate the
two units, whatever was asked before. It fails only where a number is at fault, a unit is refused or
merging leaves the range.
-/
namespace Metrology.Session

variable {K : Type} [Scalar K] {good : K → Prop} {fault : Error → Prop}
variable {o s : Session K} {asked : Compound K → Prop} {d : Dimension} {u v : Compound K}

/-- The factor of the conversion is good. -/
def Sized (good : K → Prop) (_ _ : Compound K) (c : Conversion K) : Prop := good c.factor.value

/-- The unit is known, its single terms were asked for, and no other unit that was asked for has its
symbol. -/
structure Met (o : Session K) (asked : Compound K → Prop) (u : Compound K) : Prop where
  sound : u.Sound o.lexicon.Names
  parts : ∀ c, u.HasPart c → asked c
  unmistaken : Unmistaken asked u

/-- So is what is meant by the unit. -/
def Meets (o : Session K) (asked : Compound K → Prop) (ref : UnitRef K) : Prop :=
  ∀ u, o.lexicon.deref ref = .ok u → Met o asked u

theorem met_of_asked (apart : ToldApart o.lexicon asked) (own : asked u)
    (parts : ∀ c, u.HasPart c → asked c) : Met o asked u :=
  ⟨apart.sound u own, parts, unmistaken_of_asked apart own⟩

theorem settled_sized (apart : ToldApart o.lexicon asked) : Settled o good asked (Sized good) where
  apart := apart
  sized _ _ _ own := own
  single _ _ _ _ _ _ _ _ _ computed := computed.1

section

variable (within : Scalar.Within good fault) (furnished : o.Furnished good)
  (reads : (∀ e, fault e) ∨ o.Readable fault) (apart : ToldApart o.lexicon asked)
include within furnished reads apart

theorem ends_merging (sound : u.Sound o.lexicon.Names) (parts : ∀ c, u.HasPart c → asked c) :
    (mergeFactor u).Ends (Knows o good asked (Sized good))
      (fun r => (o.merged u = .ok r.2 ∧ good r.1.value) ∧ True)
      fun e => fault e ∨ o.merged u = .error e :=
  ends_mergeFactor within furnished reads (settled_sized apart) (W := fun _ _ _ => True)
    (fun _ _ _ _ _ _ => trivial) (fun _ _ _ _ _ _ _ _ => trivial)
    (fun t mem => ⟨(sound.terms t mem).1, fun v c made single => parts c ⟨t, mem, v, made, single⟩⟩)
    trivial

/-- A conversion between units that were asked for is found where the registries relate them. -/
theorem ends_conversionIn {src dest : UnitRef K} (meets : Meets o asked src)
    (meets' : Meets o asked dest) :
    (conversionIn d src dest).Ends (Knows o good asked (Sized good)) (fun found => ∃ u v,
      (o.lexicon.deref src = .ok u ∧ u.dimension = .ok d) ∧
        (o.lexicon.deref dest = .ok v ∧ v.dimension = .ok d) ∧
        (asked u → asked v → o.Granted (Sized good) d u v found))
      fun e => fault e ∨ ((validate d src).apply o).1 = .error e ∨
        ((validate d dest).apply o).1 = .error e ∨
        ∃ u v, o.lexicon.deref src = .ok u ∧ o.lexicon.deref dest = .ok v ∧ o.MergingFails u v e := by
  refine ends_lookup (fun u meant => (meets u meant).unmistaken) (fun v meant => (meets' v meant).unmistaken)
    (fun e refused => .inr (.inl refused)) (fun e refused => .inr (.inr (.inl refused)))
    fun u v meant meant' _ _ => ?_
  have known := meets u meant
  have known' := meets' v meant'
  refine (ends_compute within furnished reads known.sound known'.sound
    (ends_merging within furnished reads apart known.sound known.parts)
    (ends_merging within furnished reads apart known'.sound known'.parts)).weaken
      (fun found granted => granted.weaken fun c computed => computed.1) fun e failed => ?_
  exact failed.imp_right fun fails => .inr (.inr ⟨u, v, meant, meant', fails⟩)

/-- Questions about units that may be met leave what is known right. -/
theorem keptByParts_knows {met : Compound K → Prop}
    (meets : ∀ u, met u → (∀ c, u.HasPart c → met c) → Met o asked u)
    (parts : ∀ u c : Compound K, u.Sound o.lexicon.Names → u.HasPart c → met c → asked c) :
    KeptByParts o met (Knows o good asked (Sized good)) where
  indexed := furnished.indexed
  registries _ knows := knows.registries
  conversion _ _ _ asksSrc asksDest :=
    (ends_conversionIn within furnished reads apart
      (fun u meant => meets u (asksSrc u meant).1 (asksSrc u meant).2)
      fun v meant => meets v (asksDest v meant).1 (asksDest v meant).2).keeps.weaken fun _ _ => trivial
  merging u sound all :=
    (ends_merging within furnished reads apart sound fun c part =>
      parts u c sound part (all c part)).keeps.weaken fun _ _ => trivial
  reduction _ bridging sound :=
    (ends_toBase within furnished reads sound bridging).keeps.weaken fun _ _ => trivial
  edges _ _ knows := knows.withStore (knows.registries.edgesOf _)
  network _ := .bind (ends_routes furnished reads _).keeps fun _ _ => .pure trivial
  route _ src dest := (ends_route within furnished reads src dest).keeps.weaken fun _ _ => trivial

theorem keptByParts_asked : KeptByParts o asked (Knows o good asked (Sized good)) :=
  keptByParts_knows within furnished reads apart (fun _ own parts => met_of_asked apart own parts)
    fun _ _ _ _ own => own

end

/-! ### Runs -/

/-- Units are found under all their symbols, and edges are kept under their ends. -/
structure Orderly (s : Session K) : Prop where
  consistent : s.lexicon.Consistent
  store : s.store.Orderly

theorem orderly_ofSystems {systems : List MeasurementSystem} (made : ofSystems systems = .ok s) :
    s.Orderly :=
  ⟨(consistent_ofSystems made).1, (blank_of_ofSystems made).1 ▸ EdgeStore.orderly_empty⟩

theorem Orderly.deed (orderly : s.Orderly) (deed : Deed K) : (deed.after s).Orderly :=
  ⟨consistent_operation orderly.consistent (.step (.deed deed)), orderly_after orderly.store deed⟩

theorem Orderly.perform (orderly : s.Orderly) (deeds : List (Deed K)) : (perform deeds s).Orderly := by
  induction deeds generalizing s with
  | nil => exact orderly
  | cons deed rest ih => exact ih (orderly.deed deed)

theorem Orderly.furnished (orderly : s.Orderly) : s.Furnished fun _ => True where
  indexed := orderly.consistent.indexed
  prefixes _ _ := trivial
  units _ _ _ := trivial
  edges d es registered key c edge := by
    have ends := (orderly.store.current registered).ends _ (Register.mem_rows_of_get? edge)
    exact ⟨congrArg Prod.fst ends.symm, congrArg Prod.snd ends.symm, trivial⟩

/-- A conversion is found exactly if the registries relate the units. -/
theorem decides_of_knows (furnished : o.Furnished good) (within : Scalar.Within good fault)
    (reads : (∀ e, fault e) ∨ o.Readable fault) (apart : ToldApart o.lexicon asked)
    (knows : Knows o good asked (Sized good) s) {src dest : UnitRef K} (asksSrc : Asks o asked src)
    (asksDest : Asks o asked dest) {found : Option (Conversion K)}
    (given : ((conversion src dest).apply s).1 = .ok found) :
    ∃ u v d, (o.lexicon.deref src = .ok u ∧ u.dimension = .ok d) ∧
      (o.lexicon.deref dest = .ok v ∧ v.dimension = .ok d) ∧ o.Decides d u v found := by
  have keeps : (conversion src dest).Keeps (Knows o good asked (Sized good)) fun found =>
      ∃ u v d, (o.lexicon.deref src = .ok u ∧ u.dimension = .ok d) ∧
        (o.lexicon.deref dest = .ok v ∧ v.dimension = .ok d) ∧ o.Decides d u v found := by
    have parses := (keptByParts_asked within furnished reads apart).keptAmong.parse src
    refine .bind parses fun u meant => ?_
    refine .bind (.lift fun d given => given) fun d _ => ?_
    have met {ref : UnitRef K} (asks : Asks o asked ref) : Meets o asked ref :=
      fun w meant => met_of_asked apart (asks w meant).1 (asks w meant).2
    have metU : Meets o asked (.compound u) := by
      intro w same
      obtain rfl := Except.ok.inj same
      exact met asksSrc u meant
    refine (ends_conversionIn within furnished reads apart metU (met asksDest)).keeps.weaken
      fun found ⟨w, v, ⟨same, dimension⟩, isDest, granted⟩ => ?_
    obtain rfl := Except.ok.inj same
    exact ⟨u, v, d, ⟨meant, dimension⟩, isDest,
      (granted (asksSrc u meant).1 (asksDest v isDest.1).1).1⟩
  exact keeps.answer knows given

/-- Whatever is done with a session, two of its units that are told apart from all that was asked since
the last change are converted exactly if the registries relate them. -/
theorem decides_of_reply (orderly : s.Orderly) (start : s.Forgotten) {deeds : List (Deed K)}
    (plain : WithoutLoading deeds) {asked : List (Query K)} {src dest : UnitRef K}
    (known : ∀ q ∈ .conversion src dest :: (pending [] deeds s ++ asked), ∀ ref ∈ q.refs,
      (perform deeds s).lexicon.Refers ref)
    (apart : TellsApart (perform deeds s).lexicon
      (.conversion src dest :: (pending [] deeds s ++ asked)))
    {found : Option (Conversion K)} (given : reply asked src dest (perform deeds s) = .ok found) :
    ∃ u v d, ((perform deeds s).lexicon.deref src = .ok u ∧ u.dimension = .ok d) ∧
      ((perform deeds s).lexicon.deref dest = .ok v ∧ v.dimension = .ok d) ∧
      (perform deeds s).Decides d u v found := by
  obtain ⟨o, orderly', forgotten, unchanged⟩ : ∃ o : Session K, o.Orderly ∧ o.Forgotten ∧
      Unchanged o (pending [] deeds s) (perform deeds s) :=
    exists_unchanged plain (fun _ deed orderly => orderly.deed deed) orderly start .start orderly
  have furnished := orderly'.furnished
  rw [unchanged.lexicon] at known apart ⊢
  let compared (c : Compound K) : Prop :=
    ∃ q ∈ .conversion src dest :: (pending [] deeds s ++ asked), q.Compares o.lexicon c
  have told : ToldApart o.lexicon compared := toldApart_of_tellsApart furnished.indexed known apart
  have kept : KeptByParts o compared (Knows o (fun _ => True) compared (Sized fun _ => True)) :=
    keptByParts_asked .lax furnished (.inl fun _ => trivial) told
  have knows := unchanged.keeps kept forgotten.knows (fun q mem => known q (by simp [mem]))
    fun q mem c compares => ⟨q, by simp [mem], compares⟩
  have later : Knows o (fun _ => True) compared (Sized fun _ => True)
      (perform (asked.map .ask) (perform deeds s)) :=
    kept.perform (fun q mem => known q (by simp [mem]))
      (fun q mem c compares => ⟨q, by simp [mem], compares⟩) knows
  have ⟨asksSrc, asksDest⟩ : Asks o compared src ∧ Asks o compared dest :=
    asks_ends fun c compares => ⟨_, List.mem_cons_self, compares⟩
  obtain ⟨u, v, d, isSrc, isDest, decides⟩ := decides_of_knows furnished .lax
    (.inl fun _ => trivial) told later asksSrc asksDest given
  exact ⟨u, v, d, isSrc, isDest, knows.registries.decides decides⟩

/-! ### Computed without a memory -/

/-- What is meant by the unit merges into the other one. -/
def Merges (o : Session K) (ref : UnitRef K) (m : Compound K) : Prop :=
  ∃ u, o.lexicon.deref ref = .ok u ∧ o.merged u = .ok m

/-- What the unit merges into, by comparing its terms. -/
def mergesInto (o : Session K) (ref : UnitRef K) : Except Error (Compound K) := do
  let u ← o.lexicon.deref ref
  let r ← ((mergeFactor u).apply o).1
  return r.2

/-- Whether what the unit merges into leads to SI base units, by reducing it. -/
def leadsToBase (o : Session K) (ref : UnitRef K) : Except Error Bool := do
  let m ← o.mergesInto ref
  let base ← ((toBase m true).apply o).1
  return base.isSome

section

variable (orderly : o.Orderly) (forgotten : o.Forgotten) (tabled : o.lexicon.Tabled)
  {ref : UnitRef K} (refers : o.lexicon.Refers ref) {m : Compound K}
include orderly forgotten tabled refers

/-- The units that a session knows are merged so. -/
theorem merges_of_mergesInto (computed : o.mergesInto ref = .ok m) : o.Merges ref m := by
  obtain ⟨u, meant, computed⟩ := bind_eq_ok.mp computed
  obtain ⟨r, run, same⟩ := bind_eq_ok.mp computed
  obtain rfl := Except.ok.inj same
  have sound := tabled.indexed.sound_of_deref refers meant
  have told : ToldApart o.lexicon u.HasPart := toldApart_of_reordered tabled fun c part =>
    ⟨sound_of_hasPart sound part, reordered_of_hasPart part⟩
  have merging : (mergeFactor u).Ends (Knows o (fun _ => True) u.HasPart (Sized fun _ => True)) _ _ :=
    ends_merging .lax orderly.furnished (.inl fun _ => trivial) told sound fun _ part => part
  exact ⟨u, meant, ((merging.outcome forgotten.knows).given run).1.1⟩

/-- They lead to SI base units so. -/
theorem grounded_of_leadsToBase {leads : Bool} (computed : o.leadsToBase ref = .ok leads)
    (merges : o.Merges ref m) : o.Grounded m ↔ leads = true := by
  obtain ⟨m', merging, computed⟩ := bind_eq_ok.mp computed
  obtain ⟨base, run, same⟩ := bind_eq_ok.mp computed
  obtain rfl := Except.ok.inj same
  obtain ⟨u, meant, merged⟩ := merges
  obtain ⟨u', meant', merged'⟩ := merges_of_mergesInto orderly forgotten tabled refers merging
  obtain rfl := Except.ok.inj (meant.symm.trans meant')
  obtain rfl := Except.ok.inj (merged.symm.trans merged')
  have sound := tabled.indexed.sound_of_deref refers meant
  have reducing : (toBase m true).Ends
      (Knows o (fun _ => True) (fun _ => False) (Sized fun _ => True)) _ _ :=
    ends_toBase .lax orderly.furnished (.inl fun _ => trivial) (terms_of_merged sound merged).2.sound true
  exact ((reducing.outcome forgotten.knows).given run).1.symm

end

end Metrology.Session
