import Mathlib.Algebra.Order.Field.Power
import Metrology.Proofs.Unit.Dimension
import Metrology.Proofs.Unit.RoundTrip
import Metrology.Proofs.Unit.Weighing

/-!
# Total dimensions

The dimensions of the terms of a unit add up to its total dimension, whether each is in range or
not. Combining terms, leaving out prefixes and ordering the terms anew keep it, for numbers of any
kind.
-/
namespace Metrology

variable {K : Type} {P : NamedUnit K → Option (Prefix K) → Prop}

/-- Within `P`, terms of one kind have the same unit. -/
def IdentifiesUnits (P : NamedUnit K → Option (Prefix K) → Prop) : Prop :=
  ∀ t u : Term K, P t.unit t.scaling → P u.unit u.scaling → t.sameBase u = true → t.unit = u.unit

theorem Lexicon.identifiesUnits (lex : Lexicon K) : IdentifiesUnits lex.Names := by
  intro t u names names' alike
  have ascii : t.unit.asciiSymbol = u.unit.asciiSymbol := by
    simp only [Term.sameBase, Bool.and_eq_true, decide_eq_true_eq] at alike
    exact alike.1
  have found := names.1
  rw [ascii, names'.1] at found
  exact (Option.some.inj found).symm

namespace Compound

variable {weight : NamedUnit K → Int} {c d : Compound K}

/-- The sum of the weights of the units, each taken as often as its exponent says. -/
def tally (weight : NamedUnit K → Int) (ts : List (Term K)) : Int :=
  (ts.map fun t => weight t.unit * t.exponent).sum

@[simp] theorem tally_nil : tally weight [] = 0 := rfl

@[simp] theorem tally_cons (t : Term K) (ts : List (Term K)) :
    tally weight (t :: ts) = weight t.unit * t.exponent + tally weight ts := by
  simp [tally]

/-- The tally of piles. -/
def tallyOfPiles (weight : NamedUnit K → Int) (ps : List (Pile K)) : Int :=
  (ps.map fun p => weight p.head.unit * p.exponent).sum

@[simp] theorem tallyOfPiles_cons (p : Pile K) (ps : List (Pile K)) :
    tallyOfPiles weight (p :: ps) = weight p.head.unit * p.exponent + tallyOfPiles weight ps := by
  simp [tallyOfPiles]

/-- Piles that cancel count for nothing. -/
theorem tally_level {ps : List (Pile K)} {ts : List (Term K)} (leveled : level ps = .ok ts) :
    tally weight ts = tallyOfPiles weight ps := by
  show weigh (fun u _ => weight u) ts = weighPiles (fun u _ => weight u) ps
  exact weigh_level leveled

/-- Visible terms have the tally of their product. -/
theorem tally_ofTerms (identifies : IdentifiesUnits P) {ts : List (Term K)}
    (sound : ∀ t ∈ ts, t.Sound P ∧ t.isScalar = false) (made : ofTerms ts = .ok c) :
    tally weight c.terms = tally weight ts := by
  have uniform : Uniform P fun u _ => weight u := fun t u base base' same => by
    rw [identifies t u base base' same]
  exact weigh_ofTerms uniform sound made

/-- The order of the terms does not show in the tally. -/
theorem tally_reordered (sound : c.Sound P) :
    tally weight c.reordered.terms = tally weight c.terms :=
  (sound.reordered_perm.map _).sum_eq

theorem tally_withoutPrefixes {lex : Lexicon K} (sound : c.Sound lex.Names)
    (made : c.withoutPrefixes = .ok d) : tally weight d.terms = tally weight c.terms := by
  obtain ⟨ts, all, product⟩ := bind_eq_ok.mp made
  have plain := sound.terms_withoutPrefix (fun _ _ names => names.withoutPrefix) all
  rw [tally_ofTerms lex.identifiesUnits plain product, terms_of_withoutPrefix all]
  simp [tally, Function.comp_def]

/-- The sum of the dimensions of the terms, in range or not. -/
def total (c : Compound K) : Dimension :=
  Dimension.ofFn fun a => tally (fun u => u.dimension.exponent a) c.terms

@[simp] theorem exponent_total (c : Compound K) (a : Axis) :
    c.total.exponent a = tally (fun u => u.dimension.exponent a) c.terms :=
  Dimension.exponent_ofFn _ a

theorem total_congr
    (same : ∀ weight : NamedUnit K → Int, tally weight d.terms = tally weight c.terms) :
    d.total = c.total :=
  Dimension.ext_exponent fun a => by rw [exponent_total, exponent_total, same]

theorem total_reordered (sound : c.Sound P) : c.reordered.total = c.total :=
  total_congr fun _ => tally_reordered sound

theorem total_withoutPrefixes {lex : Lexicon K} (sound : c.Sound lex.Names)
    (made : c.withoutPrefixes = .ok d) : d.total = c.total :=
  total_congr fun _ => tally_withoutPrefixes sound made

/-- The sum of the dimensions of terms, each of which is in range. -/
theorem foldlM_dimension {ts : List (Term K)} {start e : Dimension} :
    ts.foldlM (fun d t => t.dimension.map d.mul) start = .ok e ↔
      (∀ t ∈ ts, ∃ f, t.dimension = .ok f) ∧
        ∀ a, e.exponent a = start.exponent a + tally (fun u => u.dimension.exponent a) ts := by
  induction ts generalizing start with
  | nil =>
    constructor
    · intro same
      obtain rfl := Except.ok.inj same
      simp
    · rintro ⟨_, same⟩
      have : e = start := Dimension.ext_exponent fun a => by simpa using same a
      rw [this]
      rfl
  | cons t ts ih =>
    rw [List.foldlM_cons, bind_eq_ok, List.forall_mem_cons]
    constructor
    · rintro ⟨next, first, rest⟩
      obtain ⟨own, isOwn, rfl⟩ := map_eq_ok.mp first
      obtain ⟨rfl, _⟩ := Dimension.checked_eq_ok_iff.mp isOwn
      obtain ⟨others, sum⟩ := ih.mp rest
      refine ⟨⟨⟨_, isOwn⟩, others⟩, fun a => ?_⟩
      rw [sum a, Dimension.exponent_mul, Dimension.exponent_pow, tally_cons, Int.add_assoc]
    · rintro ⟨⟨⟨own, isOwn⟩, others⟩, sum⟩
      obtain ⟨rfl, _⟩ := Dimension.checked_eq_ok_iff.mp isOwn
      refine ⟨_, map_eq_ok.mpr ⟨_, isOwn, rfl⟩, ih.mpr ⟨others, fun a => ?_⟩⟩
      rw [sum a, Dimension.exponent_mul, Dimension.exponent_pow, tally_cons, Int.add_assoc]

/-- A unit has a dimension if its terms have one and they add up to it, and it is in range. -/
theorem dimension_eq_ok_iff {e : Dimension} :
    c.dimension = .ok e ↔
      (∀ t ∈ c.terms, ∃ f, t.dimension = .ok f) ∧ c.total = e ∧ e.InRange := by
  have sums (e : Dimension) : (∀ a, e.exponent a = Dimension.dimensionless.exponent a +
      tally (fun u => u.dimension.exponent a) c.terms) ↔ c.total = e := by
    constructor
    · exact fun same => Dimension.ext_exponent fun a => by rw [exponent_total, same a]; simp
    · rintro rfl a
      simp
  rw [dimension, bind_eq_ok]
  constructor
  · rintro ⟨f, sum, checked⟩
    obtain ⟨rfl, inRange⟩ := Dimension.checked_eq_ok_iff.mp checked
    obtain ⟨own, same⟩ := foldlM_dimension.mp sum
    exact ⟨own, (sums f).mp same, inRange⟩
  · rintro ⟨own, same, inRange⟩
    exact ⟨e, foldlM_dimension.mpr ⟨own, (sums e).mpr same⟩,
      Dimension.checked_eq_ok_iff.mpr ⟨rfl, inRange⟩⟩

/-- The dimension of a unit that stands alone. -/
theorem dimension_single {u : NamedUnit K} {p : Option (Prefix K)} (inRange : u.dimension.InRange) :
    (⟨[⟨u, p, 1⟩]⟩ : Compound K).dimension = .ok u.dimension := by
  have power : u.dimension.pow 1 = u.dimension := Dimension.ext_exponent fun a => by simp
  have own : Term.dimension (⟨u, p, 1⟩ : Term K) = .ok u.dimension := by
    rw [Term.dimension, power]
    exact Dimension.checked_eq_ok_iff.mpr ⟨rfl, inRange⟩
  refine dimension_eq_ok_iff.mpr ⟨fun t mem => ?_, Dimension.ext_exponent fun a => ?_, inRange⟩
  · exact List.mem_singleton.mp mem ▸ ⟨_, own⟩
  · simp

/-- Powers of two tell the exponents of an axis. -/
theorem character_axis [Field K] [LinearOrder K] [IsStrictOrderedRing K] (a : Axis) :
    Character fun d => (2 : K) ^ d.exponent a where
  one := by simp
  mul d e := by rw [Dimension.exponent_mul, zpow_add₀ two_ne_zero]
  pow d n := by rw [Dimension.exponent_pow, zpow_mul]

theorem HasDimension.total_eq [Field K] [LinearOrder K] [IsStrictOrderedRing K] {e : Dimension}
    (has : c.HasDimension e) : c.total = e := by
  refine Dimension.ext_exponent fun a => ?_
  have value : ∀ ts : List (Term K), valueOf (fun u _ => (2 : K) ^ u.dimension.exponent a) ts
      = 2 ^ tally (fun u => u.dimension.exponent a) ts := by
    intro ts
    induction ts with
    | nil => simp
    | cons t ts ih => rw [valueOf_cons, ih, tally_cons, zpow_add₀ two_ne_zero, zpow_mul]
  have same := has _ (character_axis a)
  rw [value c.terms] at same
  rw [exponent_total]
  exact (zpow_right_injective₀ (by norm_num) (by norm_num)) same

end Compound

end Metrology
