import Metrology.Proofs.Dimension.Reading

/-!
# The group of codes

Codes are multiplied, divided and raised to powers as the dimensions that they stand for, as long as
the results are in range. So the laws of a commutative group hold between codes as texts, a code
that is not canonical counting as the one that it is normalized to.
-/
namespace Metrology

namespace Dimension

variable {a b c s t : String} {v : Exponents} {d e : Dimension} {m n : Int}

/-! ### Laws of dimensions -/

protected theorem mul_comm (d e : Dimension) : d.mul e = e.mul d :=
  ext_exponent fun a => by simp [Int.add_comm]

protected theorem mul_assoc (d e f : Dimension) : (d.mul e).mul f = d.mul (e.mul f) :=
  ext_exponent fun a => by simp [Int.add_assoc]

theorem mul_dimensionless (d : Dimension) : d.mul dimensionless = d :=
  ext_exponent fun a => by simp

protected theorem mul_pow (d e : Dimension) (n : Int) : (d.mul e).pow n = (d.pow n).mul (e.pow n) :=
  ext_exponent fun a => by simp [Int.add_mul]

protected theorem pow_mul (d : Dimension) (m n : Int) : d.pow (m * n) = (d.pow m).pow n :=
  ext_exponent fun a => by simp [Int.mul_assoc]

theorem mul_cancel (d e : Dimension) : (d.mul e).mul (e.pow (-1)) = d :=
  ext_exponent fun a => by
    rw [exponent_mul, exponent_mul, exponent_pow]
    omega

/-! ### Valid codes and canonical ones -/

theorem isCode_iff : isCode s = true ↔ ∃ d, totalOf s = .ok d := by
  unfold isCode totalOf decompose
  cases readCode? s <;> simp [Except.map]

theorem totalOf_unitCode : totalOf unitCode = .ok dimensionless := rfl

theorem canonical_inj (first : d.canonical = .ok s) (second : e.canonical = .ok s) : d = e :=
  Except.ok.inj ((totalOf_of_canonical first).symm.trans (totalOf_of_canonical second))

theorem normalize_of_total (total : totalOf s = .ok d) : normalize s = d.canonical := by
  rw [normalize_eq, total]
  rfl

theorem multiply_of_total (first : totalOf s = .ok d) (second : totalOf t = .ok e) :
    multiply s t = (d.mul e).canonical := by
  rw [multiply_eq, first, second]
  rfl

theorem applyExponent_of_total (nonzero : n ≠ 0) (total : totalOf s = .ok d) :
    applyExponent s n = (d.pow n).canonical := by
  rw [applyExponent_eq s nonzero, total]
  rfl

theorem divide_of_total (first : totalOf s = .ok d) (second : totalOf t = .ok e)
    (inverse : (e.pow (-1)).InRange) : divide s t = (d.mul (e.pow (-1))).canonical := by
  have written : (e.pow (-1)).canonical = .ok (e.pow (-1)).code := canonical_eq_ok.mpr ⟨inverse, rfl⟩
  rw [divide, applyExponent_of_total (by decide) second, written]
  exact multiply_of_total first (totalOf_of_canonical written)

/-! ### The laws -/

/-- The laws of a commutative group, between codes as texts and wherever the operations return. -/
structure GroupLaws (a b c : String) (m n : Int) : Prop where
  normal : ∀ s, normalize a = .ok s → isCode s = true ∧ normalize s = .ok s
  same_iff : ∀ s t, normalize a = .ok s → normalize b = .ok t →
    (s = t ↔ ∃ v w : Exponents, decompose a = .ok v ∧ decompose b = .ok w ∧
      (v.shown false).Perm (w.shown false))
  comm : multiply a b = multiply b a
  assoc : ∀ s t, multiply a b = .ok s → multiply b c = .ok t → multiply s c = multiply a t
  neutral : multiply a unitCode = normalize a ∧ multiply unitCode a = normalize a
  cancel : ∀ s t, multiply a b = .ok s → divide s b = .ok t → normalize a = .ok t
  distrib : ∀ s t u, multiply a b = .ok s → applyExponent a n = .ok t → applyExponent b n = .ok u →
    applyExponent s n = multiply t u
  powers : ∀ s, applyExponent a m = .ok s → applyExponent s n = applyExponent a (m * n)

theorem isCode_of_canonical (written : d.canonical = .ok s) : isCode s = true :=
  isCode_iff.mpr ⟨d, totalOf_of_canonical written⟩

/-- Codes have one normal form exactly if they list the same exponents, up to order and zeros. -/
theorem normalize_eq_iff (first : normalize a = .ok s) (second : normalize b = .ok t) :
    s = t ↔ ∃ v w : Exponents, decompose a = .ok v ∧ decompose b = .ok w ∧
      (v.shown false).Perm (w.shown false) := by
  rw [normalize_eq] at first second
  obtain ⟨d, ofFirst, writtenFirst⟩ := bind_eq_ok.mp first
  obtain ⟨e, ofSecond, writtenSecond⟩ := bind_eq_ok.mp second
  obtain ⟨v, readFirst, distinctFirst, rfl⟩ := totalOf_eq_ok.mp ofFirst
  obtain ⟨w, readSecond, distinctSecond, rfl⟩ := totalOf_eq_ok.mp ofSecond
  constructor
  · rintro rfl
    exact ⟨v, w, readFirst, readSecond,
      (distinctFirst.toDimension_eq_iff distinctSecond).mp (canonical_inj writtenFirst writtenSecond)⟩
  · rintro ⟨v', w', same, same', perm⟩
    obtain rfl := Except.ok.inj (readFirst.symm.trans same)
    obtain rfl := Except.ok.inj (readSecond.symm.trans same')
    rw [(distinctFirst.toDimension_eq_iff distinctSecond).mpr perm] at writtenFirst
    exact Except.ok.inj (writtenFirst.symm.trans writtenSecond)

theorem groupLaws (validA : isCode a = true) (validB : isCode b = true) (validC : isCode c = true)
    (nonzeroM : m ≠ 0) (nonzeroN : n ≠ 0) : GroupLaws a b c m n := by
  obtain ⟨d, totalA⟩ := isCode_iff.mp validA
  obtain ⟨e, totalB⟩ := isCode_iff.mp validB
  obtain ⟨f, totalC⟩ := isCode_iff.mp validC
  have product := multiply_of_total totalA totalB
  have neutral := multiply_of_total totalA totalOf_unitCode
  have neutral' := multiply_of_total totalOf_unitCode totalA
  rw [mul_dimensionless] at neutral
  rw [Dimension.mul_comm, mul_dimensionless] at neutral'
  refine ⟨fun s made => ?_, fun s t => normalize_eq_iff, ?_, fun s t made made' => ?_,
    ⟨neutral.trans (normalize_of_total totalA).symm, neutral'.trans (normalize_of_total totalA).symm⟩,
    fun s t made made' => ?_, fun s t u made made' made'' => ?_, fun s made => ?_⟩
  · have written := (normalize_of_total totalA).symm.trans made
    exact ⟨isCode_of_canonical written,
      (normalize_of_total (totalOf_of_canonical written)).trans written⟩
  · rw [product, multiply_of_total totalB totalA, Dimension.mul_comm]
  · have first := totalOf_of_canonical (product.symm.trans made)
    have second := totalOf_of_canonical ((multiply_of_total totalB totalC).symm.trans made')
    rw [multiply_of_total first totalC, multiply_of_total totalA second, Dimension.mul_assoc]
  · have first := totalOf_of_canonical (product.symm.trans made)
    obtain ⟨inverse, power, _⟩ := bind_eq_ok.mp made'
    rw [applyExponent_of_total (by decide) totalB] at power
    rw [divide_of_total first totalB (canonical_eq_ok.mp power).1, mul_cancel] at made'
    rwa [normalize_of_total totalA]
  · have first := totalOf_of_canonical (product.symm.trans made)
    have second := totalOf_of_canonical ((applyExponent_of_total nonzeroN totalA).symm.trans made')
    have third := totalOf_of_canonical ((applyExponent_of_total nonzeroN totalB).symm.trans made'')
    rw [applyExponent_of_total nonzeroN first, multiply_of_total second third, Dimension.mul_pow]
  · have first := totalOf_of_canonical ((applyExponent_of_total nonzeroM totalA).symm.trans made)
    rw [applyExponent_of_total nonzeroN first,
      applyExponent_of_total (Int.mul_ne_zero nonzeroM nonzeroN) totalA, Dimension.pow_mul]

/-- Exponents in range are read back from the code that they are written as, in order of priority
and without zeros unless these are kept; and valid codes obey the laws of a commutative group. -/
theorem codes_form_group (distinct : v.Distinct) (range : ∀ row ∈ v, -9 ≤ row.2 ∧ row.2 ≤ 9)
    (keepZeros : Bool) (validA : isCode a = true) (validB : isCode b = true)
    (validC : isCode c = true) (nonzeroM : m ≠ 0) (nonzeroN : n ≠ 0) :
    ((∃ code, compose v keepZeros = .ok code ∧
        decompose code = .ok (v.inOrder.shown keepZeros)) ∧
      v.inOrder.Perm v ∧ v.inOrder.Pairwise fun r s => r.1.priority < s.1.priority) ∧
    GroupLaws a b c m n :=
  ⟨⟨decompose_compose (fun row mem => by have := range row mem; unfold maxExponent; omega) keepZeros,
      distinct.inOrder_perm, v.pairwise_priority⟩,
    groupLaws validA validB validC nonzeroM nonzeroN⟩

theorem force_codes_form_group :
    (∃ code, compose [(.time, -2), (.mass, 1), (.angle, 0)] true = .ok code ∧
      decompose code = .ok [(.mass, 1), (.angle, 0), (.time, -2)]) ∧
    GroupLaws "T-2MA0" "L٣" "MLT-2" (-2) 3 := by
  obtain ⟨⟨written, _, _⟩, laws⟩ := codes_form_group
    (v := [(.time, -2), (.mass, 1), (.angle, 0)]) (a := "T-2MA0") (b := "L٣") (c := "MLT-2")
    (m := -2) (n := 3) (by decide) (by decide) true (by decide +kernel) (by decide +kernel)
    (by decide +kernel) (by decide) (by decide)
  exact ⟨written, laws⟩

end Dimension

end Metrology
