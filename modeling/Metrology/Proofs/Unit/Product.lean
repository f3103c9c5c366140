import Mathlib.Data.List.Pairwise
import Metrology.Proofs.Outcome
import Metrology.Proofs.Unit.Writing

/-!
# Products

A product has at most one term of each kind, and combining its terms again changes nothing.
-/
namespace Metrology

variable {K : Type} {P : NamedUnit K → Option (Prefix K) → Prop}

namespace Term

/-- A term with an exponent in range whose unit accepts its prefix, both of which satisfy `P`. -/
structure Sound (P : NamedUnit K → Option (Prefix K) → Prop) (t : Term K) : Prop where
  base : P t.unit t.scaling
  nonzero : t.exponent ≠ 0
  range : t.exponent.natAbs ≤ maxExponent
  accepted : ∀ p, t.scaling = some p → t.unit.accepts p = true

theorem make_eq_ok {u : NamedUnit K} {scaling : Option (Prefix K)} {n : Int} {t : Term K} :
    make u scaling n = .ok t ↔
      t = ⟨u, scaling, n⟩ ∧ n ≠ 0 ∧ n.natAbs ≤ maxExponent ∧
        ∀ p, scaling = some p → u.accepts p = true := by
  unfold make
  by_cases zero : n = 0
  · simp [zero]
  by_cases range : maxExponent < n.natAbs
  · simp [zero, range, Nat.not_le.mpr range]
  rw [if_neg zero, if_neg range]
  have valid : n ≠ 0 ∧ n.natAbs ≤ maxExponent := ⟨zero, Nat.not_lt.mp range⟩
  cases scaling with
  | none => simp [valid, @eq_comm _ t]
  | some p =>
    by_cases accepts : u.accepts p = true
    · simp [valid, accepts, @eq_comm _ t]
    · simp [accepts]

theorem Sound.make_self {t : Term K} (sound : t.Sound P) :
    make t.unit t.scaling t.exponent = .ok t :=
  make_eq_ok.mpr ⟨rfl, sound.nonzero, sound.range, sound.accepted⟩

theorem sound_of_make {u : NamedUnit K} {scaling : Option (Prefix K)} {n : Int} {t : Term K}
    (base : P u scaling) (made : make u scaling n = .ok t) : t.Sound P := by
  obtain ⟨rfl, nonzero, range, accepted⟩ := make_eq_ok.mp made
  exact ⟨base, nonzero, range, accepted⟩

theorem visible_of_make {t u : Term K} {scaling : Option (Prefix K)} {n : Int}
    (visible : t.isScalar = false) (made : make t.unit scaling n = .ok u) : u.isScalar = false := by
  obtain ⟨rfl, _⟩ := make_eq_ok.mp made
  exact visible

theorem sameBase_comm (t u : Term K) : t.sameBase u = u.sameBase t := by
  simp [sameBase, eq_comm]

end Term

namespace Compound

/-- No two of the terms are of one kind. -/
def Distinct (ts : List (Term K)) : Prop := ts.Pairwise fun t u => t.sameBase u = false

/-- The terms are sound and visible, and of different kinds. -/
structure Sound (P : NamedUnit K → Option (Prefix K) → Prop) (c : Compound K) : Prop where
  terms : ∀ t ∈ c.terms, t.Sound P ∧ t.isScalar = false
  distinct : Distinct c.terms

variable {t : Term K} {ts : List (Term K)} {ps : List (Pile K)}

theorem mem_pile {p : Pile K} (mem : p ∈ pile t ps) : p.head = t ∨ ∃ q ∈ ps, q.head = p.head := by
  induction ps with
  | nil =>
    obtain rfl := List.mem_singleton.mp mem
    exact .inl rfl
  | cons q rest ih =>
    rw [pile] at mem
    split at mem
    · rcases List.mem_cons.mp mem with rfl | inside
      · exact .inr ⟨q, List.mem_cons_self, rfl⟩
      · exact .inr ⟨p, List.mem_cons_of_mem _ inside, rfl⟩
    · rcases List.mem_cons.mp mem with rfl | inside
      · exact .inr ⟨p, List.mem_cons_self, rfl⟩
      · rcases ih inside with same | ⟨r, inside, same⟩
        · exact .inl same
        · exact .inr ⟨r, List.mem_cons_of_mem _ inside, same⟩

/-- Adding a term keeps one pile for each kind. -/
theorem distinct_pile (distinct : Distinct (ps.map (·.head))) :
    Distinct ((pile t ps).map (·.head)) := by
  induction ps with
  | nil => simp [pile, Distinct]
  | cons q rest ih =>
    obtain ⟨apart, tail⟩ := List.pairwise_cons.mp distinct
    rw [pile]
    split
    next => exact List.pairwise_cons.mpr ⟨apart, tail⟩
    next other =>
      refine List.pairwise_cons.mpr ⟨fun u mem => ?_, ih tail⟩
      obtain ⟨p, inside, rfl⟩ := List.mem_map.mp mem
      rcases mem_pile inside with same | ⟨r, inside, same⟩
      · rw [same]
        exact Bool.not_eq_true _ ▸ other
      · rw [← same]
        exact apart _ (List.mem_map_of_mem inside)

/-- A term of a new kind opens a new pile. -/
theorem pile_of_fresh (fresh : ∀ p ∈ ps, p.head.sameBase t = false) :
    pile t ps = ps ++ [⟨t, t.exponent⟩] := by
  induction ps with
  | nil => rfl
  | cons q rest ih =>
    rw [pile, fresh q List.mem_cons_self, if_neg (by simp),
      ih fun p mem => fresh p (List.mem_cons_of_mem _ mem), List.cons_append]

variable {us : List (Term K)} {c : Compound K}

theorem piles_append_of_distinct (distinct : Distinct us) (visible : ∀ t ∈ us, t.isScalar = false)
    (fresh : ∀ p ∈ ps, ∀ t ∈ us, p.head.sameBase t = false) :
    (us.filter fun t => !t.isScalar).foldl (fun ps t => pile t ps) ps
      = ps ++ us.map fun t => ⟨t, t.exponent⟩ := by
  induction us generalizing ps with
  | nil => simp
  | cons t us ih =>
    obtain ⟨apart, tail⟩ := List.pairwise_cons.mp distinct
    have keep : (!t.isScalar) = true := by simp [visible t List.mem_cons_self]
    rw [show (t :: us).filter (fun t => !t.isScalar) = t :: us.filter fun t => !t.isScalar from
        List.filter_cons_of_pos (p := fun t : Term K => !t.isScalar) keep, List.foldl_cons,
      pile_of_fresh fun p mem => fresh p mem t List.mem_cons_self,
      ih tail (fun u mem => visible u (List.mem_cons_of_mem _ mem))]
    · simp
    · intro p mem u inside
      rcases List.mem_append.mp mem with old | new
      · exact fresh p old u (List.mem_cons_of_mem _ inside)
      · obtain rfl := List.mem_singleton.mp new
        exact apart u inside

/-- A sound product is the product of its own terms. -/
theorem Sound.ofTerms_terms (sound : c.Sound P) : ofTerms c.terms = .ok c := by
  have own : (c.terms.filter fun t => !t.isScalar).foldl (fun ps t => pile t ps) []
      = [] ++ c.terms.map fun t => ⟨t, t.exponent⟩ :=
    piles_append_of_distinct sound.distinct (fun t mem => (sound.terms t mem).2)
      fun _ mem => absurd mem List.not_mem_nil
  rw [List.nil_append] at own
  have kept : ((c.terms.map fun t => (⟨t, t.exponent⟩ : Pile K)).filter fun p => p.exponent ≠ 0)
      = c.terms.map fun t => ⟨t, t.exponent⟩ := by
    refine List.filter_eq_self.mpr fun p mem => ?_
    obtain ⟨t, inside, rfl⟩ := List.mem_map.mp mem
    simpa using (sound.terms t inside).1.nonzero
  have made : c.terms.mapM (fun t => t.withExponent t.exponent) = .ok c.terms :=
    mapM_eq_ok.mpr (List.forall₂_same.mpr fun t mem => (sound.terms t mem).1.make_self)
  rw [ofTerms, piles, own, level, kept, List.mapM_map]
  show Except.map _ (c.terms.mapM fun t => t.withExponent t.exponent) = _
  rw [made]
  rfl

theorem piles_heads (sound : ∀ t ∈ ts, t.Sound P) :
    Distinct ((piles ts).map (·.head)) ∧
      ∀ p ∈ piles ts, p.head.Sound P ∧ p.head.isScalar = false := by
  have run : ∀ us : List (Term K), (∀ t ∈ us, t.Sound P ∧ t.isScalar = false) → ∀ ps : List (Pile K),
      Distinct (ps.map (·.head)) → (∀ p ∈ ps, p.head.Sound P ∧ p.head.isScalar = false) →
      Distinct ((us.foldl (fun ps t => pile t ps) ps).map (·.head)) ∧
        ∀ p ∈ us.foldl (fun ps t => pile t ps) ps, p.head.Sound P ∧ p.head.isScalar = false := by
    intro us
    induction us with
    | nil => exact fun _ ps distinct heads => ⟨distinct, heads⟩
    | cons t us ih =>
      intro all ps distinct heads
      refine ih (fun u mem => all u (List.mem_cons_of_mem _ mem)) _ (distinct_pile distinct)
        fun p mem => ?_
      rcases mem_pile mem with same | ⟨q, inside, same⟩
      · exact same ▸ all t List.mem_cons_self
      · exact same ▸ heads q inside
  refine run _ (fun t mem => ?_) [] List.Pairwise.nil (by simp)
  obtain ⟨inside, visible⟩ := List.mem_filter.mp mem
  exact ⟨sound t inside, by simpa using visible⟩

/-- A pile that does not cancel gives its head, with the exponent of the pile. -/
theorem terms_of_level (leveled : level ps = .ok us) :
    us = (ps.filter fun p => p.exponent ≠ 0).map
      fun p => ⟨p.head.unit, p.head.scaling, p.exponent⟩ :=
  eq_map_of_mapM (fun _ _ same => (Term.make_eq_ok.mp same).1) leveled

theorem sound_of_level (heads : ∀ p ∈ ps, p.head.Sound P ∧ p.head.isScalar = false)
    (leveled : level ps = .ok us) : ∀ t ∈ us, t.Sound P ∧ t.isScalar = false := by
  intro t mem
  obtain ⟨p, inside, same⟩ := exists_of_mem_mapM leveled mem
  obtain ⟨head, visible⟩ := heads p (List.mem_filter.mp inside).1
  exact ⟨Term.sound_of_make head.base same, Term.visible_of_make visible same⟩

/-- A product of sound terms is sound. -/
theorem sound_of_ofTerms (sound : ∀ t ∈ ts, t.Sound P) (made : ofTerms ts = .ok c) : c.Sound P := by
  obtain ⟨us, leveled, rfl⟩ := map_eq_ok.mp made
  obtain ⟨distinct, heads⟩ := piles_heads sound
  refine ⟨sound_of_level heads leveled, ?_⟩
  rw [terms_of_level leveled]
  exact List.pairwise_map.mpr ((List.pairwise_map.mp distinct).filter _)

/-- The terms above the slash and the terms below it make up the unit. -/
theorem mem_reordered {t : Term K} (sound : c.Sound P) : t ∈ c.reordered.terms ↔ t ∈ c.terms := by
  simp only [reordered, above, below, List.mem_append, List.mem_filter, decide_eq_true_eq]
  constructor
  · rintro (⟨mem, _⟩ | ⟨mem, _⟩) <;> exact mem
  · intro mem
    have := (sound.terms t mem).1.nonzero
    rcases Int.lt_or_gt_of_ne this with below | above
    · exact .inr ⟨mem, below⟩
    · exact .inl ⟨mem, above⟩

theorem Sound.reordered_perm (sound : c.Sound P) : c.reordered.terms.Perm c.terms := by
  have below : c.below = c.terms.filter fun t => !decide (0 < t.exponent) := by
    refine List.filter_congr fun t mem => ?_
    have := (sound.terms t mem).1.nonzero
    by_cases negative : t.exponent < 0
    · simp [negative, Int.not_lt.mpr (Int.le_of_lt negative)]
    · have positive : 0 < t.exponent := by omega
      simp [negative, positive]
  show (c.above ++ c.below).Perm c.terms
  rw [below]
  exact List.filter_append_perm _ _

/-- Terms without their prefixes. -/
theorem terms_of_withoutPrefix (all : ts.mapM Term.withoutPrefix = .ok us) :
    us = ts.map fun t => ⟨t.unit, none, t.exponent⟩ :=
  eq_map_of_mapM (fun _ _ same => (Term.make_eq_ok.mp same).1) all

theorem Sound.terms_withoutPrefix (sound : c.Sound P) (bare : ∀ u p, P u p → P u none)
    (all : c.terms.mapM Term.withoutPrefix = .ok us) : ∀ t ∈ us, t.Sound P ∧ t.isScalar = false := by
  intro t mem
  obtain ⟨u, inside, same⟩ := exists_of_mem_mapM all mem
  obtain ⟨base, visible⟩ := sound.terms u inside
  exact ⟨Term.sound_of_make (bare _ _ base.base) same, Term.visible_of_make visible same⟩

/-- A power is the product of no terms or of the powers of the terms. -/
theorem Sound.pow_cases {d : Compound K} {n : Int} (sound : c.Sound P) (made : c.pow n = .ok d) :
    n = 0 ∧ d = one ∨ ∃ us, us = c.terms.map (fun t => ⟨t.unit, t.scaling, t.exponent * n⟩) ∧
      (∀ t ∈ us, t.Sound P ∧ t.isScalar = false) ∧ ofTerms us = .ok d := by
  unfold Compound.pow at made
  split at made
  next zero => exact .inl ⟨zero, (Except.ok.inj made).symm⟩
  next =>
    obtain ⟨us, all, product⟩ := bind_eq_ok.mp made
    refine .inr ⟨us, eq_map_of_mapM (fun _ _ same => (Term.make_eq_ok.mp same).1) all,
      fun t mem => ?_, product⟩
    obtain ⟨u, inside, same⟩ := exists_of_mem_mapM all mem
    obtain ⟨base, visible⟩ := sound.terms u inside
    exact ⟨Term.sound_of_make base.base same, Term.visible_of_make visible same⟩

/-- A power other than the 0th consists of the powers of the terms. -/
theorem Sound.terms_of_pow {d : Compound K} {n : Int} (sound : c.Sound P) (nonzero : n ≠ 0)
    (made : c.pow n = .ok d) :
    d.terms = c.terms.map fun t => ⟨t.unit, t.scaling, t.exponent * n⟩ := by
  rcases sound.pow_cases made with ⟨zero, _⟩ | ⟨ts, rfl, terms, product⟩
  · exact absurd zero nonzero
  · have powers : (⟨_⟩ : Compound K).Sound P := ⟨terms, List.pairwise_map.mpr sound.distinct⟩
    exact congrArg Compound.terms (Except.ok.inj (product.symm.trans powers.ofTerms_terms))

theorem Sound.reordered (sound : c.Sound P) : c.reordered.Sound P := by
  refine ⟨fun t mem => sound.terms t ((mem_reordered sound).mp mem), ?_⟩
  refine List.pairwise_append.mpr ⟨sound.distinct.filter _, sound.distinct.filter _, ?_⟩
  intro t above u below
  obtain ⟨isIn, positive⟩ := List.mem_filter.mp above
  obtain ⟨isIn', negative⟩ := List.mem_filter.mp below
  simp only [decide_eq_true_eq] at positive negative
  have symmetric : Std.Symm fun t u : Term K => t.sameBase u = false :=
    ⟨fun t u apart => by rwa [Term.sameBase_comm]⟩
  refine sound.distinct.forall isIn isIn' ?_
  rintro rfl
  omega

end Compound

end Metrology
