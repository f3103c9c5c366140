import Metrology.Proofs.Session.Convertibility
import Metrology.Proofs.Session.Readability

/-!
# Valid questions are answered

A question about two units of a dimension fails only where merging them leaves the range of exponents
or dimensions, an expansion names a unit that is not registered, or a number is at fault, and exact
numbers never are. That holds whatever was asked before: single terms, between which merging looks
conversions up, are told apart by their symbols, and whatever is remembered for others is an answer.
-/
namespace Metrology

variable {K : Type}

/-! ### Leaving the range -/

/-- An exponent of a unit or a dimension is out of range. -/
def Error.isOutOfRange : Error → Bool
  | exponentOutOfRange _ _ | dimensionOutOfRange _ _ => true
  | _ => false

/-- A term whose prefix is accepted can be given every exponent in range but zero. -/
theorem Term.Sound.brings_withExponent {P : NamedUnit K → Option (Prefix K) → Prop} {t : Term K}
    (sound : t.Sound P) {n : Int} (nonzero : n ≠ 0) :
    Brings (·.Sound P) (·.isOutOfRange) (t.withExponent n) := by
  refine .of_given (fun u made => sound_of_make sound.base made) fun e failed => ?_
  unfold withExponent make at failed
  rw [if_neg nonzero] at failed
  split at failed
  next =>
    obtain rfl := Except.error.inj failed
    rfl
  next =>
    split at failed
    next => cases failed
    next p scaled =>
      rw [if_pos (sound.accepted p scaled)] at failed
      cases failed

theorem Dimension.brings_checked (d : Dimension) :
    Brings (fun _ => True) (·.isOutOfRange) d.checked := by
  unfold checked
  split
  next => exact trivial
  next => rfl

namespace Compound

variable {P : NamedUnit K → Option (Prefix K) → Prop} {c d : Compound K} {ts : List (Term K)}

theorem brings_ofTerms (sound : ∀ t ∈ ts, t.Sound P) :
    Brings (·.Sound P) (·.isOutOfRange) (ofTerms ts) := by
  have level : Brings (fun us => ∀ u ∈ us, u.Sound P) (·.isOutOfRange) (level (piles ts)) := by
    refine .mapM fun p mem => ?_
    obtain ⟨isPile, shown⟩ := List.mem_filter.mp mem
    exact ((piles_heads sound).2 p isPile).1.brings_withExponent (by simpa using shown)
  refine .of_given (fun c made => sound_of_ofTerms sound made) fun e failed => ?_
  have whole : Brings (fun _ => True) (·.isOutOfRange) (ofTerms ts) := level.map fun _ _ => trivial
  exact whole.failed failed

theorem brings_dimension (c : Compound K) :
    Brings (fun _ => True) (·.isOutOfRange) c.dimension := by
  refine .bind (.foldlM (Q := fun _ => True) (fun d t _ _ => ?_) trivial) fun d _ => d.brings_checked
  exact (t.unit.dimension.pow t.exponent).brings_checked.map fun _ _ => trivial

theorem brings_same (c d : Compound K) : Brings (fun _ => True) (·.isOutOfRange) (c.same d) := by
  unfold same
  split
  next => exact c.brings_dimension.bind fun _ _ => d.brings_dimension.bind fun _ _ => trivial
  next => exact trivial

end Compound

namespace Session

variable [Scalar K] {o s : Session K} {u v w x : Compound K}

/-- Merging fails only by leaving the range. -/
theorem outOfRange_of_merged (sound : u.Sound o.lexicon.Names) {e : Error}
    (failed : o.merged u = .error e) : e.isOutOfRange := by
  have brings : Brings (fun _ => True) (·.isOutOfRange) (o.merged u) := by
    refine (Brings.mapM (Q := (·.Sound o.lexicon.Names)) fun g mem => ?_).bind fun ts terms =>
      (Compound.brings_ofTerms terms).weaken (fun _ _ => trivial) fun _ own => own
    obtain ⟨isGroup, left⟩ := List.mem_filter.mp mem
    rcases mem_placeAll isGroup with opened | ⟨_, none, _⟩
    · exact (sound.terms _ opened).1.brings_withExponent (by simpa using left)
    · cases none
  exact brings.failed failed

theorem MergingFails.outOfRange {e : Error} (fails : o.MergingFails u v e)
    (sound : u.Sound o.lexicon.Names) (sound' : v.Sound o.lexicon.Names) : e.isOutOfRange := by
  rcases fails with failed | failed | ⟨m, n, _, _, failed⟩
  · exact outOfRange_of_merged sound failed
  · exact outOfRange_of_merged sound' failed
  · exact (m.brings_same n).failed failed

/-! ### Single terms -/

/-- The unit is a single term of a unit of the lexicon. -/
def Single (lex : Lexicon K) (c : Compound K) : Prop := ∃ u : Compound K, u.Sound lex.Names ∧ u.HasPart c

theorem toldApart_single {lex : Lexicon K} (tabled : lex.Tabled) : ToldApart lex (Single lex) :=
  toldApart_of_reordered tabled fun _ ⟨_, sound, part⟩ =>
    ⟨sound_of_hasPart sound part, reordered_of_hasPart part⟩

/-- A unit that consists of a single term, but for the order of its terms, is that term. -/
theorem eq_of_hasPart (sound : u.Sound o.lexicon.Names) (part : w.HasPart x)
    (same : u.reordered = x) : u = x := by
  have perm : x.terms.Perm u.terms := same ▸ sound.reordered_perm
  obtain ⟨t, _, z, made, single⟩ := part
  have meant : o.lexicon.deref (.term z) = .ok x := single
  have terms : u.terms = x.terms := by
    rcases terms_of_deref made meant with rfl | ⟨rfl, _⟩
    · exact List.nil_perm.mp perm
    · exact (List.singleton_perm.mp perm).symm
  cases u
  cases x
  exact congrArg Compound.mk terms

/-- No unit shares its symbol with a single term other than itself. -/
theorem met_of_sound (tabled : o.lexicon.Tabled) (sound : u.Sound o.lexicon.Names) :
    Met o (Single o.lexicon) u where
  sound := sound
  parts _ part := ⟨u, sound, part⟩
  unmistaken := by
    rintro x ⟨w, sound', part⟩ same
    have read := tabled.parse_write .ascii sound
    rw [same, tabled.parse_write .ascii (sound_of_hasPart sound' part)] at read
    exact eq_of_hasPart sound part ((Except.ok.inj read).symm.trans (reordered_of_hasPart part))

/-! ### Answers -/

/-- The conversion between units of a dimension that a session gives after some questions. -/
def replyIn (asked : List (Query K)) (d : Dimension) (src dest : UnitRef K) (s : Session K) :
    Except Error (Option (Conversion K)) :=
  ((conversionIn d src dest).apply (perform (asked.map .ask) s)).1

/-- The value that a session gives after some questions for one between units of a dimension. -/
def convertedIn (asked : List (Query K)) (d : Dimension) (value : K) (src dest : UnitRef K)
    (s : Session K) : Except Error K :=
  ((convertIn d value src dest).apply (perform (asked.map .ask) s)).1

/-- Why a question about two units is not answered: for a fault of numbers, an expansion that has no
meaning, or because merging leaves the range. -/
def Excuses (s : Session K) (fault : Error → Prop) (u v : Compound K) (e : Error) : Prop :=
  fault e ∨ (s.lexicon.FailsToExpand e ∧ e.kind = .meaning) ∨ s.MergingFails u v e ∧ e.isOutOfRange

/-- Whatever was asked before, for two units that pass as units of a dimension a conversion is given or
there is none, and a value is converted or there is no path, but for the excuses. -/
def AnswersValid (s : Session K) (fault : Error → Prop) : Prop :=
  ∀ (asked : List (Query K)) (d : Dimension) (src dest : UnitRef K) (u v : Compound K),
    (∀ q ∈ asked, ∀ ref ∈ q.refs, s.lexicon.Refers ref) →
    s.lexicon.Refers src → s.lexicon.Refers dest →
    ((validate d src).apply s).1 = .ok u → ((validate d dest).apply s).1 = .ok v →
    (∀ e, replyIn asked d src dest s = .error e → s.Excuses fault u v e) ∧
    ∀ value e, convertedIn asked d value src dest s = .error e →
      s.Excuses fault u v e ∨ e = .noPath (u.write .ascii) (v.write .ascii)

section

variable {good : K → Prop} {fault : Error → Prop} {systems : List MeasurementSystem}
  (within : Scalar.Within good fault) (made : ofSystems systems = .ok s)
include within made

/-- Questions leave what is known of single terms right, whatever they are about. -/
theorem knows_perform {asked : List (Query K)}
    (known : ∀ q ∈ asked, ∀ ref ∈ q.refs, s.lexicon.Refers ref) :
    Knows s good (Single s.lexicon) (Sized good) (perform (asked.map .ask) s) := by
  have tabled := tabled_ofSystems made
  have kept : KeptByParts s (·.Sound s.lexicon.Names)
      (Knows s good (Single s.lexicon) (Sized good)) :=
    keptByParts_knows (within.weaken fun _ => .inl) (furnished_ofSystems within made)
      (.inr (readable_ofSystems within made)) (toldApart_single tabled)
      (fun w sound _ => met_of_sound tabled sound) fun w c sound part _ => ⟨w, sound, part⟩
  exact kept.perform known
    (fun q mem c compares => q.sound_of_compares tabled.indexed (known q mem) compares)
    (blank_of_ofSystems made).2.knows

variable {d : Dimension} {src dest : UnitRef K} (refers : s.lexicon.Refers src)
  (refers' : s.lexicon.Refers dest) (passes : ((validate d src).apply s).1 = .ok u)
  (passes' : ((validate d dest).apply s).1 = .ok v)
include refers refers' passes passes'

theorem ends_validConversion :
    (conversionIn d src dest).Ends (Knows s good (Single s.lexicon) (Sized good)) (fun _ => True)
      (s.Excuses fault u v) := by
  have tabled := tabled_ofSystems made
  have meets {ref : UnitRef K} (refers : s.lexicon.Refers ref) : Meets s (Single s.lexicon) ref :=
    fun w meant => met_of_sound tabled (tabled.indexed.sound_of_deref refers meant)
  obtain ⟨meant, _⟩ := validate_eq_ok.mp passes
  obtain ⟨meant', _⟩ := validate_eq_ok.mp passes'
  refine (ends_conversionIn (within.weaken fun _ => .inl) (furnished_ofSystems within made)
    (.inr (readable_ofSystems within made)) (toldApart_single tabled) (meets refers)
    (meets refers')).weaken (fun _ _ => trivial) ?_
  rintro e ((faulty | unread) | refused | refused | ⟨w, z, isSrc, isDest, fails⟩)
  · exact .inl faulty
  · exact .inr (.inl ⟨unread, tabled.kind_of_failsToExpand unread⟩)
  · rw [passes] at refused
    cases refused
  · rw [passes'] at refused
    cases refused
  · obtain rfl := Except.ok.inj (meant.symm.trans isSrc)
    obtain rfl := Except.ok.inj (meant'.symm.trans isDest)
    exact .inr (.inr ⟨fails, fails.outOfRange (tabled.indexed.sound_of_deref refers meant)
      (tabled.indexed.sound_of_deref refers' meant')⟩)

theorem ends_validConvert (value : K) :
    (convertIn d value src dest).Ends (Knows s good (Single s.lexicon) (Sized good)) (fun _ => True)
      fun e => s.Excuses fault u v e ∨ e = .noPath (u.write .ascii) (v.write .ascii) := by
  have validates {ref : UnitRef K} {w : Compound K} {E : Error → Prop}
      (passes : ((validate d ref).apply s).1 = .ok w) :
      (validate d ref).Ends (Knows s good (Single s.lexicon) (Sized good)) (w = ·) E := by
    intro t knows
    refine ⟨(KeptByLookups.validate d ref).invariant knows, ?_⟩
    rw [validate_of_registries knows.registries, passes]
    exact rfl
  refine .bind ((ends_validConversion within made refers refers' passes passes').weaken
    (fun _ own => own) fun _ => .inl) fun found _ => ?_
  cases found with
  | some c => exact .pure trivial
  | none =>
    refine .bind (validates passes) fun _ same => ?_
    subst same
    refine .bind (validates passes') fun _ same => ?_
    subst same
    exact .throw (.inr rfl)

end

theorem answersValid_ofSystems {good : K → Prop} {fault : Error → Prop}
    {systems : List MeasurementSystem} (within : Scalar.Within good fault)
    (made : ofSystems systems = .ok s) : s.AnswersValid fault := by
  intro asked d src dest u v known refers refers' passes passes'
  have knows := knows_perform within made known
  exact ⟨fun e => ((ends_validConversion within made refers refers' passes passes').outcome knows).failed,
    fun value e =>
      ((ends_validConvert within made refers refers' passes passes' value).outcome knows).failed⟩

/-- A session with the customary units. -/
def customary : Session ℚ := (ofSystems [.us]).toOption.getD blank

theorem ofSystems_customary : ofSystems [.us] = .ok customary := eq_ok_getD (by decide +kernel) blank

/-- A session with the units of navigation, which knows no hours. -/
def mariner : Session ℚ := (ofSystems [.nautical]).toOption.getD blank

/-- What is found of the units of a dimension, and of a conversion between them. -/
def inquiry (d : Dimension) (src dest : String) (s : Session ℚ) :
    Bool × Bool × Except Error (Option (Conversion ℚ)) :=
  (((validate d (.symbol src)).apply s).1.isOk, ((validate d (.symbol dest)).apply s).1.isOk,
    ((conversionIn d (.symbol src) (.symbol dest)).apply s).1)

end Session

end Metrology
