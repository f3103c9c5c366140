import Metrology.Proofs.Unit.RoundTrip
import Metrology.Proofs.Unit.Weighing

/-!
# The algebra of units

The power of a kind of term in a unit is the exponent of the term of that kind, or 0 if there is
none. Powers add up under multiplication and decide which products are given; units with the same
powers have the same terms, in whatever order. So units form an abelian group, as far as their
exponents stay in range.
-/
namespace Metrology

variable {K : Type} {P : NamedUnit K → Option (Prefix K) → Prop}

namespace Term

variable {t u : Term K}

/-- The symbols of the unit and of the prefix. Terms of one kind combine. -/
def kind (t : Term K) : String × String := (t.unit.asciiSymbol, t.scalingSymbol)

theorem sameBase_iff : t.sameBase u = true ↔ t.kind = u.kind := by
  simp [sameBase, kind]

theorem sameBase_eq_false_iff : t.sameBase u = false ↔ t.kind ≠ u.kind := by
  rw [← Bool.not_eq_true, sameBase_iff]

theorem same_iff : t.same u = true ↔ t.kind = u.kind ∧ t.exponent = u.exponent := by
  rw [same, Bool.and_eq_true, sameBase_iff, decide_eq_true_eq]

/-- The term was made from a unit, a prefix and an exponent, all of which were allowed. -/
def IsMade (t : Term K) : Prop := ∃ u p n, make u p n = .ok t

theorem IsMade.sound (made : t.IsMade) : t.Sound fun _ _ => True := by
  obtain ⟨u, p, n, made⟩ := made
  exact sound_of_make trivial made

/-- The term with its exponent negated. -/
def reciprocal (t : Term K) : Term K := ⟨t.unit, t.scaling, -t.exponent⟩

@[simp] theorem reciprocal_reciprocal (t : Term K) : t.reciprocal.reciprocal = t := by
  simp [reciprocal]

theorem Sound.reciprocal (sound : t.Sound P) : t.reciprocal.Sound P where
  base := sound.base
  nonzero := Int.neg_ne_zero.mpr sound.nonzero
  range := (Int.natAbs_neg t.exponent).trans_le sound.range
  accepted := sound.accepted

theorem Sound.inv_eq (sound : t.Sound P) : t.inv = .ok t.reciprocal :=
  sound.reciprocal.make_self

end Term

namespace Compound

variable {c d e : Compound K} {t : Term K} {ts us : List (Term K)} {ps : List (Pile K)}
  {k : String × String} {n : Int}

theorem distinct_iff : Distinct ts ↔ (ts.map Term.kind).Nodup := by
  rw [Distinct, List.Nodup, List.pairwise_map]
  exact List.Pairwise.iff fun _ _ => Term.sameBase_eq_false_iff

/-- Counts the terms of one kind. -/
def indicator (k : String × String) (u : NamedUnit K) (p : Option (Prefix K)) : Int :=
  if (⟨u, p, 1⟩ : Term K).kind = k then 1 else 0

theorem uniform_indicator : Uniform P (indicator k) := by
  intro t u _ _ same
  have kinds : t.kind = u.kind := Term.sameBase_iff.mp same
  show (if t.kind = k then 1 else 0) = if u.kind = k then 1 else 0
  rw [kinds]

/-- The sum of the exponents of the terms of one kind. -/
def power (k : String × String) (ts : List (Term K)) : Int := weigh (indicator k) ts

@[simp] theorem power_nil : power k ([] : List (Term K)) = 0 := rfl

@[simp] theorem power_cons (t : Term K) (ts : List (Term K)) :
    power k (t :: ts) = (if t.kind = k then t.exponent else 0) + power k ts := by
  rw [power, weigh_cons]
  show (if t.kind = k then 1 else 0) * t.exponent + _ = _
  rw [ite_mul, Int.one_mul, Int.zero_mul]
  rfl

@[simp] theorem power_append (ts us : List (Term K)) :
    power k (ts ++ us) = power k ts + power k us :=
  weigh_append ts us

theorem power_eq_zero (none : ∀ t ∈ ts, t.kind ≠ k) : power k ts = 0 := by
  induction ts with
  | nil => rfl
  | cons t ts ih =>
    obtain ⟨head, tail⟩ := List.forall_mem_cons.mp none
    rw [power_cons, if_neg head, ih tail, Int.zero_add]

/-- Where no two terms are of one kind, the power of a kind is the exponent of its term. -/
theorem power_of_mem (distinct : Distinct ts) (mem : t ∈ ts) : power t.kind ts = t.exponent := by
  induction ts with
  | nil => cases mem
  | cons u ts ih =>
    obtain ⟨apart, tail⟩ := List.pairwise_cons.mp distinct
    rw [power_cons]
    rcases List.mem_cons.mp mem with rfl | inside
    · have others : ∀ v ∈ ts, v.kind ≠ t.kind := fun v mem =>
        (Term.sameBase_eq_false_iff.mp (apart v mem)).symm
      rw [if_pos rfl, power_eq_zero others, Int.add_zero]
    · rw [if_neg (Term.sameBase_eq_false_iff.mp (apart t inside)), ih tail inside, Int.zero_add]

/-- Raising every term to a power raises every kind to it. -/
theorem power_map_mul :
    power k (ts.map fun t => ⟨t.unit, t.scaling, t.exponent * n⟩) = power k ts * n :=
  weigh_map_mul ts n

/-- A unit has a term of a kind and an exponent exactly if that is the power of the kind. -/
theorem Sound.exists_same_iff (sound : c.Sound P) :
    (∃ u ∈ c.terms, t.same u = true) ↔ power t.kind c.terms = t.exponent ∧ t.exponent ≠ 0 := by
  constructor
  · rintro ⟨u, mem, same⟩
    obtain ⟨kinds, exponents⟩ := Term.same_iff.mp same
    rw [kinds, exponents]
    exact ⟨power_of_mem sound.distinct mem, (sound.terms u mem).1.nonzero⟩
  · rintro ⟨same, nonzero⟩
    by_contra missing
    have none : ∀ u ∈ c.terms, u.kind ≠ t.kind := by
      intro u mem kinds
      refine missing ⟨u, mem, Term.same_iff.mpr ⟨kinds.symm, ?_⟩⟩
      rw [← same, ← kinds]
      exact power_of_mem sound.distinct mem
    exact nonzero (same.symm.trans (power_eq_zero none))

theorem Sound.natAbs_power_le (sound : c.Sound P) (k : String × String) :
    (power k c.terms).natAbs ≤ maxExponent := by
  by_cases present : ∃ t ∈ c.terms, t.kind = k
  · obtain ⟨t, mem, rfl⟩ := present
    rw [power_of_mem sound.distinct mem]
    exact (sound.terms t mem).1.range
  · rw [power_eq_zero fun t mem same => present ⟨t, mem, same⟩]
    exact Nat.zero_le _

/-- A unit in which every kind has the power 0 has no terms. -/
theorem Sound.eq_one (sound : c.Sound P) (zero : ∀ k, power k c.terms = 0) : c = one := by
  obtain ⟨ts⟩ := c
  cases ts with
  | nil => rfl
  | cons t ts =>
    have own := power_of_mem sound.distinct (List.mem_cons_self (a := t))
    rw [zero] at own
    exact absurd own.symm (sound.terms t List.mem_cons_self).1.nonzero

/-- The two units have the same set of terms. -/
def SameTerms (c d : Compound K) : Prop :=
  ∀ t : Term K, (∃ u ∈ c.terms, t.same u = true) ↔ ∃ u ∈ d.terms, t.same u = true

theorem Sound.sameTerms (sound : c.Sound P) (sound' : d.Sound P)
    (same : ∀ k, power k c.terms = power k d.terms) : c.SameTerms d := by
  intro t
  rw [sound.exists_same_iff, sound'.exists_same_iff, same]

/-- Visible terms have the powers of their product. -/
theorem power_ofTerms (sound : ∀ t ∈ ts, t.Sound P ∧ t.isScalar = false)
    (made : ofTerms ts = .ok c) (k : String × String) : power k c.terms = power k ts :=
  weigh_ofTerms uniform_indicator sound made

/-- The exponent of a pile is the power of its kind. -/
theorem exponent_eq_power (sound : ∀ t ∈ ts, t.Sound P ∧ t.isScalar = false) {p : Pile K}
    (mem : p ∈ piles ts) : p.exponent = power p.head.kind ts := by
  have total : weighPiles (indicator p.head.kind) (piles ts) = power p.head.kind ts :=
    weighPiles_piles uniform_indicator sound
  -- a pile counts as the term that it leaves behind
  let left (p : Pile K) : Term K := ⟨p.head.unit, p.head.scaling, p.exponent⟩
  have distinct : Distinct ((piles ts).map left) :=
    List.pairwise_map.mpr (List.pairwise_map.mp (piles_heads fun t mem => (sound t mem).1).1)
  have own : power p.head.kind ((piles ts).map left) = p.exponent :=
    power_of_mem distinct (List.mem_map_of_mem mem)
  rw [← own, ← total, power, weigh, weighPiles, List.map_map]
  rfl

/-- A product is given exactly if the power of every kind is in range. -/
theorem ofTerms_isOk_iff (sound : ∀ t ∈ ts, t.Sound P ∧ t.isScalar = false) :
    (∃ c, ofTerms ts = .ok c) ↔ ∀ k, (power k ts).natAbs ≤ maxExponent := by
  constructor
  · rintro ⟨c, made⟩ k
    rw [← power_ofTerms sound made]
    exact (sound_of_ofTerms (fun t mem => (sound t mem).1) made).natAbs_power_le k
  · intro range
    have heads := (piles_heads fun t mem => (sound t mem).1).2
    obtain ⟨us, leveled⟩ : ∃ us, level (piles ts) = .ok us := by
      refine mapM_isOk fun p mem => ?_
      obtain ⟨mem, nonzero⟩ := List.mem_filter.mp mem
      have inRange := range p.head.kind
      rw [← exponent_eq_power sound mem] at inRange
      exact ⟨_, Term.make_eq_ok.mpr
        ⟨rfl, of_decide_eq_true nonzero, inRange, (heads p mem).1.accepted⟩⟩
    exact ⟨⟨us⟩, map_eq_ok.mpr ⟨us, leveled, rfl⟩⟩

theorem Sound.mulTerms_single (sound : c.Sound P) (sound' : t.Sound P)
    (made : c.mulTerms [t] = .ok e) : e.Sound P :=
  sound_of_ofTerms (fun u mem => (List.mem_append.mp mem).elim (fun mem => (sound.terms u mem).1)
    fun mem => List.mem_singleton.mp mem ▸ sound') made

theorem Sound.power_mul (sound : c.Sound P) (sound' : d.Sound P) (made : c.mul d = .ok e)
    (k : String × String) : power k e.terms = power k c.terms + power k d.terms := by
  rw [power_ofTerms (sound.append sound') made, power_append]

/-- Two units have a product exactly if the powers of every kind add up to one in range. -/
theorem Sound.mul_isOk_iff (sound : c.Sound P) (sound' : d.Sound P) :
    (∃ e, c.mul d = .ok e) ↔ ∀ k, (power k c.terms + power k d.terms).natAbs ≤ maxExponent := by
  rw [Compound.mul, mulTerms, ofTerms_isOk_iff (sound.append sound')]
  simp only [power_append]

theorem Sound.mul_one (sound : c.Sound P) : c.mul one = .ok c := by
  rw [Compound.mul, mulTerms, one, List.append_nil]
  exact sound.ofTerms_terms

theorem Sound.inverse (sound : c.Sound P) : (⟨c.terms.map Term.reciprocal⟩ : Compound K).Sound P where
  terms t mem := by
    obtain ⟨u, inside, rfl⟩ := List.mem_map.mp mem
    exact ⟨(sound.terms u inside).1.reciprocal, (sound.terms u inside).2⟩
  distinct := List.pairwise_map.mpr sound.distinct

/-- Every unit has an inverse, the product of the reciprocals of its terms. -/
theorem Sound.inv_eq (sound : c.Sound P) : c.inv = .ok ⟨c.terms.map Term.reciprocal⟩ := by
  have all : c.terms.mapM Term.inv = .ok (c.terms.map Term.reciprocal) :=
    mapM_eq_ok.mpr (List.forall₂_map_right_iff.mpr (List.forall₂_same.mpr fun t mem =>
      (sound.terms t mem).1.inv_eq))
  exact bind_eq_ok.mpr ⟨_, all, sound.inverse.ofTerms_terms⟩

theorem power_reciprocal : power k (ts.map Term.reciprocal) = -power k ts := by
  have negated : (Term.reciprocal : Term K → Term K)
      = fun t => ⟨t.unit, t.scaling, t.exponent * (-1)⟩ :=
    funext fun t => by rw [Term.reciprocal, Int.mul_neg_one]
  rw [negated, power_map_mul, Int.mul_neg_one]

/-- A unit times its inverse is the product of no terms. -/
theorem Sound.mul_inverse (sound : c.Sound P) :
    c.mul ⟨c.terms.map Term.reciprocal⟩ = .ok one := by
  have cancel (k : String × String) :
      power k c.terms + power k (c.terms.map Term.reciprocal) = 0 := by
    rw [power_reciprocal, Int.add_right_neg]
  obtain ⟨e, made⟩ := (sound.mul_isOk_iff sound.inverse).mpr fun k => by simp [cancel]
  have unit : e = one := (sound.mul sound.inverse made).eq_one fun k => by
    rw [sound.power_mul sound.inverse made, cancel]
  rw [made, unit]

theorem Sound.power_pow (sound : c.Sound P) (made : c.pow n = .ok d) (k : String × String) :
    power k d.terms = power k c.terms * n := by
  rcases sound.pow_cases made with ⟨rfl, rfl⟩ | ⟨ts, rfl, terms, product⟩
  · rw [Int.mul_zero]
    rfl
  · rw [power_ofTerms terms product, power_map_mul]

/-- The units that were ever built: products of terms that were made, parsed texts, and what is
calculated from them. -/
inductive Built : Compound K → Prop
  | ofTerms {ts : List (Term K)} {c : Compound K} (terms : ∀ t ∈ ts, t.IsMade)
      (made : Compound.ofTerms ts = .ok c) : Built c
  | parsed {lex : Lexicon K} {text : String} {c : Compound K} (made : lex.parse text = .ok c) :
      Built c
  | mul {c d e : Compound K} (left : Built c) (right : Built d) (made : c.mul d = .ok e) : Built e
  | mulTerm {c e : Compound K} {t : Term K} (left : Built c) (right : t.IsMade)
      (made : c.mulTerms [t] = .ok e) : Built e
  | div {c d e : Compound K} (left : Built c) (right : Built d) (made : c.div d = .ok e) : Built e
  | divTerm {c e : Compound K} {t : Term K} (left : Built c) (right : t.IsMade)
      (made : c.divTerm t = .ok e) : Built e
  | inv {c d : Compound K} (base : Built c) (made : c.inv = .ok d) : Built d
  | pow {c d : Compound K} (n : Int) (base : Built c) (made : c.pow n = .ok d) : Built d
  | withoutPrefixes {c d : Compound K} (base : Built c) (made : c.withoutPrefixes = .ok d) : Built d

theorem Built.sound (built : c.Built) : c.Sound fun _ _ => True := by
  induction built with
  | ofTerms terms made => exact sound_of_ofTerms (fun t mem => (terms t mem).sound) made
  | parsed made => exact Lexicon.sound_of_parse_of_resolve (fun _ => trivial) made
  | mul _ _ made left right => exact left.mul right made
  | mulTerm _ right made left => exact left.mulTerms_single right.sound made
  | div _ _ made left right => exact left.div right made
  | divTerm _ right made left =>
    obtain ⟨i, inverted, product⟩ := bind_eq_ok.mp made
    exact left.mulTerms_single (Term.sound_of_make trivial inverted) product
  | inv _ made base => exact base.inv made
  | pow n _ made base => exact base.pow made
  | withoutPrefixes _ made base =>
    exact base.mapTerms (fun _ _ _ made => Term.sound_of_make trivial made) made

/-- Whenever both computations give units, these have the same terms. -/
def Agree (x y : Except Error (Compound K)) : Prop :=
  ∀ c d, x = .ok c → y = .ok d → c.SameTerms d

variable {u v w : Compound K} {m : Int}

theorem Sound.mul_comm (sound : u.Sound P) (sound' : v.Sound P) : Agree (u.mul v) (v.mul u) := by
  intro c d made made'
  refine (sound.mul sound' made).sameTerms (sound'.mul sound made') fun k => ?_
  rw [sound.power_mul sound' made, sound'.power_mul sound made', Int.add_comm]

theorem Sound.mul_assoc (sound : u.Sound P) (sound' : v.Sound P) (sound'' : w.Sound P) :
    Agree (do (← u.mul v).mul w) (do u.mul (← v.mul w)) := by
  intro c d made made'
  obtain ⟨uv, left, made⟩ := bind_eq_ok.mp made
  obtain ⟨vw, right, made'⟩ := bind_eq_ok.mp made'
  have soundLeft := sound.mul sound' left
  have soundRight := sound'.mul sound'' right
  refine (soundLeft.mul sound'' made).sameTerms (sound.mul soundRight made') fun k => ?_
  rw [soundLeft.power_mul sound'' made, sound.power_mul sound' left,
    sound.power_mul soundRight made', sound'.power_mul sound'' right, Int.add_assoc]

theorem Sound.pow_pow (sound : u.Sound P) : Agree (do (← u.pow m).pow n) (u.pow (m * n)) := by
  intro c d made made'
  obtain ⟨um, first, made⟩ := bind_eq_ok.mp made
  refine ((sound.pow first).pow made).sameTerms (sound.pow made') fun k => ?_
  rw [(sound.pow first).power_pow made, sound.power_pow first, sound.power_pow made', Int.mul_assoc]

theorem Sound.pow_mul_pow (sound : u.Sound P) :
    Agree (do (← u.pow m).mul (← u.pow n)) (u.pow (m + n)) := by
  intro c d made made'
  obtain ⟨um, first, made⟩ := bind_eq_ok.mp made
  obtain ⟨un, second, made⟩ := bind_eq_ok.mp made
  refine ((sound.pow first).mul (sound.pow second) made).sameTerms (sound.pow made') fun k => ?_
  rw [(sound.pow first).power_mul (sound.pow second) made, sound.power_pow first,
    sound.power_pow second, sound.power_pow made', Int.mul_add]

theorem Sound.mul_pow (sound : u.Sound P) (sound' : v.Sound P) :
    Agree (do (← u.mul v).pow n) (do (← u.pow n).mul (← v.pow n)) := by
  intro c d made made'
  obtain ⟨uv, product, made⟩ := bind_eq_ok.mp made
  obtain ⟨un, first, made'⟩ := bind_eq_ok.mp made'
  obtain ⟨vn, second, made'⟩ := bind_eq_ok.mp made'
  have soundProduct := sound.mul sound' product
  refine (soundProduct.pow made).sameTerms ((sound.pow first).mul (sound'.pow second) made')
    fun k => ?_
  rw [soundProduct.power_pow made, sound.power_mul sound' product,
    (sound.pow first).power_mul (sound'.pow second) made', sound.power_pow first,
    sound'.power_pow second, Int.add_mul]

/-- **Units form an abelian group where defined.** Of all units that were ever built, and whatever
registry they come from, the terms are of different kinds, none is a scalar, and their exponents are
not 0 and at most 9 in size. Up to the order of the terms multiplication is commutative and
associative, every unit has an inverse, of which it is the inverse in turn and with which it cancels,
and the laws of powers hold, wherever the products and powers in question are in range. -/
theorem abelian_group (builtU : u.Built) (builtV : v.Built) (builtW : w.Built) (m n : Int) :
    ((u.terms.map Term.kind).Nodup ∧ ∀ t ∈ u.terms,
      t.isScalar = false ∧ t.exponent ≠ 0 ∧ -9 ≤ t.exponent ∧ t.exponent ≤ 9) ∧
    Agree (u.mul v) (v.mul u) ∧
    Agree (do (← u.mul v).mul w) (do u.mul (← v.mul w)) ∧
    u.mul one = .ok u ∧
    (∃ i, u.inv = .ok i ∧ i.inv = .ok u ∧ u.mul i = .ok one) ∧ u.div u = .ok one ∧
    Agree (do (← u.pow m).pow n) (u.pow (m * n)) ∧
    Agree (do (← u.pow m).mul (← u.pow n)) (u.pow (m + n)) ∧
    Agree (do (← u.mul v).pow n) (do (← u.pow n).mul (← v.pow n)) := by
  have sound := builtU.sound
  have sound' := builtV.sound
  have wellFormed : ∀ t ∈ u.terms,
      t.isScalar = false ∧ t.exponent ≠ 0 ∧ -9 ≤ t.exponent ∧ t.exponent ≤ 9 := by
    intro t mem
    obtain ⟨base, visible⟩ := sound.terms t mem
    have range : t.exponent.natAbs ≤ 9 := base.range
    exact ⟨visible, base.nonzero, by omega, by omega⟩
  have twice : (⟨(u.terms.map Term.reciprocal).map Term.reciprocal⟩ : Compound K) = u := by
    simp [Function.comp_def]
  refine ⟨⟨distinct_iff.mp sound.distinct, wellFormed⟩, sound.mul_comm sound',
    sound.mul_assoc sound' builtW.sound, sound.mul_one, ⟨_, sound.inv_eq, ?_, sound.mul_inverse⟩,
    bind_eq_ok.mpr ⟨_, sound.inv_eq, sound.mul_inverse⟩, sound.pow_pow, sound.pow_mul_pow,
    sound.mul_pow sound'⟩
  rw [sound.inverse.inv_eq, twice]

end Compound

namespace Session

/-- How the products of two units are written in a session with the units of typography, the one
after the other and the other way round. -/
def typesetProducts (left right : String) : Except Error (String × String) := do
  let s : Session ℚ ← ofSystems [.typography]
  let u ← s.lexicon.parse left
  let v ← s.lexicon.parse right
  let c ← u.mul v
  let d ← v.mul u
  return (c.write .ascii, d.write .ascii)

theorem typesetProducts_points : typesetProducts "p2/px" "px*P" = .ok ("p2*P", "P*p2") := by
  decide +kernel

theorem points_commute : ∃ u v c d : Compound ℚ, u.Built ∧ v.Built ∧
    u.mul v = .ok c ∧ c.write .ascii = "p2*P" ∧ v.mul u = .ok d ∧ d.write .ascii = "P*p2" ∧
    c.SameTerms d := by
  obtain ⟨s, _, rest⟩ := bind_eq_ok.mp typesetProducts_points
  obtain ⟨u, readLeft, rest⟩ := bind_eq_ok.mp rest
  obtain ⟨v, readRight, rest⟩ := bind_eq_ok.mp rest
  obtain ⟨c, product, rest⟩ := bind_eq_ok.mp rest
  obtain ⟨d, turned, rest⟩ := bind_eq_ok.mp rest
  obtain ⟨written, written'⟩ := Prod.mk.inj (Except.ok.inj rest)
  have builtLeft : u.Built := .parsed readLeft
  have builtRight : v.Built := .parsed readRight
  have laws := Compound.abelian_group builtLeft builtRight builtLeft 2 (-1)
  exact ⟨u, v, c, d, builtLeft, builtRight, product, written, turned, written',
    laws.2.1 c d product turned⟩

end Session

end Metrology
