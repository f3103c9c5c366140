import Metrology.Proofs.Double.Sign

/-!
# Rounding doubles

A result is computed to some whole mantissa with notes about what lies behind it, shifted to as many
bits as a double has, and rounded to even. Rounding leads past no power of two: what lies between
two of them still does when it is rounded, as long as it does not leave the range of the normal
numbers.
-/
namespace Metrology.Double

open Float.Model Float.Model.UnpackedFloat

variable {em : ExtendedMantissa} {e i j : ℤ} {v : ℚ} {m : ℕ} {a : Accuracy}

/-- A mantissa stands for a number of which it is the whole part. The number goes beyond it if the
bit behind it is set. -/
structure StandsFor (em : ExtendedMantissa) (e : ℤ) (v : ℚ) : Prop where
  floor : em.mantissa * 2 ^ e ≤ v
  ceil : v < (em.mantissa + 1) * 2 ^ e
  beyond : em.roundBit = true → em.mantissa * 2 ^ e < v

theorem two_zpow_pos (e : ℤ) : (0 : ℚ) < 2 ^ e := zpow_pos (by norm_num) e

/-- The smallest normal number. -/
theorem least_normal : (2 : ℚ) ^ (-1022 : ℤ) = (2 ^ 52 : ℕ) * 2 ^ (-1074 : ℤ) := by
  rw [Nat.cast_pow, Nat.cast_ofNat, ← zpow_natCast, ← zpow_add₀ two_ne_zero]
  rfl

theorem StandsFor.shiftRightOne (stands : StandsFor em e v) :
    StandsFor em.shiftRightOne (e + 1) v := by
  have size := two_zpow_pos e
  have double (q : ℚ) : q * 2 ^ (e + 1) = 2 * q * 2 ^ e := by
    rw [zpow_add_one₀ two_ne_zero]
    ring
  have floor : 2 * ((em.mantissa / 2 : ℕ) : ℚ) ≤ em.mantissa := by
    exact_mod_cast Nat.mul_div_le em.mantissa 2
  have ceil : em.mantissa + 1 ≤ 2 * (((em.mantissa / 2 : ℕ) : ℚ) + 1) := by
    have : em.mantissa + 1 ≤ 2 * (em.mantissa / 2 + 1) := by omega
    exact_mod_cast this
  constructor
  case floor =>
    calc ((em.mantissa / 2 : ℕ) : ℚ) * 2 ^ (e + 1) = 2 * (em.mantissa / 2 : ℕ) * 2 ^ e := double _
      _ ≤ em.mantissa * 2 ^ e := mul_le_mul_of_nonneg_right floor size.le
      _ ≤ v := stands.floor
  case ceil =>
    calc v < (em.mantissa + 1) * 2 ^ e := stands.ceil
      _ ≤ 2 * (((em.mantissa / 2 : ℕ) : ℚ) + 1) * 2 ^ e := mul_le_mul_of_nonneg_right ceil size.le
      _ = (((em.mantissa / 2 : ℕ) : ℚ) + 1) * 2 ^ (e + 1) := (double _).symm
  case beyond =>
    intro set
    have odd : em.mantissa % 2 ≠ 0 := by simpa [ExtendedMantissa.shiftRightOne] using set
    have below : 2 * ((em.mantissa / 2 : ℕ) : ℚ) < em.mantissa := by
      have : 2 * (em.mantissa / 2) < em.mantissa := by omega
      exact_mod_cast this
    calc ((em.mantissa / 2 : ℕ) : ℚ) * 2 ^ (e + 1) = 2 * (em.mantissa / 2 : ℕ) * 2 ^ e := double _
      _ < em.mantissa * 2 ^ e := mul_lt_mul_of_pos_right below size
      _ ≤ v := stands.floor

theorem StandsFor.shift (stands : StandsFor em e v) (n : ℕ) : StandsFor (em >>> n) (e + n) v := by
  induction n with
  | zero => simpa [HShiftRight.hShiftRight, Nat.repeat] using stands
  | succ n ih =>
    have once := ih.shiftRightOne
    rw [add_assoc] at once
    exact once

theorem mantissa_shift (em : ExtendedMantissa) (n : ℕ) :
    (em >>> n).mantissa = em.mantissa / 2 ^ n := by
  induction n with
  | zero => simp [HShiftRight.hShiftRight, Nat.repeat]
  | succ n ih =>
    show (em >>> n).mantissa / 2 = _
    rw [ih, Nat.div_div_eq_div_mul, pow_succ]

/-- A mantissa is rounded up by one at most, and only if its number goes beyond it. -/
theorem StandsFor.rounded (stands : StandsFor em e v) :
    em.roundedMantissa = em.mantissa ∨
      em.roundedMantissa = em.mantissa + 1 ∧ em.mantissa * 2 ^ e < v := by
  obtain ⟨m, round, sticky⟩ := em
  cases round with
  | false => cases sticky <;> exact .inl rfl
  | true =>
    cases sticky with
    | true => exact .inr ⟨rfl, stands.beyond rfl⟩
    | false =>
      show m + m % 2 = m ∨ m + m % 2 = m + 1 ∧ _
      rcases Nat.mod_two_eq_zero_or_one m with even | odd
      · exact .inl (by rw [even, Nat.add_zero])
      · exact .inr ⟨by rw [odd], stands.beyond rfl⟩

/-- Rounding leads past no power of two. -/
theorem StandsFor.between (stands : StandsFor em e v) (positive : 0 < em.mantissa)
    (lower : 2 ^ i ≤ v) (upper : v ≤ 2 ^ j) :
    2 ^ i ≤ em.roundedMantissa * (2 : ℚ) ^ e ∧ em.roundedMantissa * (2 : ℚ) ^ e ≤ 2 ^ j := by
  have two : (1 : ℚ) < 2 := by norm_num
  have size := two_zpow_pos e
  have one : (1 : ℚ) ≤ em.mantissa := by exact_mod_cast positive
  constructor
  · have least : (2 : ℚ) ^ i ≤ em.mantissa * 2 ^ e := by
      rcases le_total i e with small | large
      · calc (2 : ℚ) ^ i ≤ 2 ^ e := zpow_le_zpow_right₀ two.le small
          _ ≤ em.mantissa * 2 ^ e := le_mul_of_one_le_left size.le one
      · obtain ⟨k, rfl⟩ := Int.le.dest large
        rw [add_comm, zpow_add₀ (by norm_num), zpow_natCast] at lower ⊢
        have whole : (2 : ℚ) ^ k < em.mantissa + 1 :=
          lt_of_mul_lt_mul_right (lower.trans_lt stands.ceil) size.le
        have whole : 2 ^ k < em.mantissa + 1 := by exact_mod_cast whole
        exact mul_le_mul_of_nonneg_right (by exact_mod_cast Nat.lt_succ_iff.mp whole) size.le
    rcases stands.rounded with same | ⟨up, _⟩
    · rwa [same]
    · rw [up]
      push_cast
      linarith
  · rcases stands.rounded with same | ⟨up, beyond⟩
    · rw [same]
      exact stands.floor.trans upper
    -- a whole number below a power of two is no larger than that power when one is added
    · have below := beyond.trans_le upper
      have large : e ≤ j := by
        refine ((zpow_lt_zpow_iff_right₀ two).mp (lt_of_le_of_lt ?_ below)).le
        exact le_mul_of_one_le_left size.le one
      obtain ⟨k, rfl⟩ := Int.le.dest large
      rw [add_comm e, zpow_add₀ (by norm_num), zpow_natCast] at below ⊢
      have whole := lt_of_mul_lt_mul_right below size.le
      have whole : em.mantissa + 1 ≤ 2 ^ k := by exact_mod_cast whole
      rw [up]
      exact mul_le_mul_of_nonneg_right (by exact_mod_cast whole) size.le

/-! ### Normal numbers -/

/-- Mantissa and exponent of a normal double. -/
structure Normal (m : ℕ) (e : ℤ) : Prop where
  full : 2 ^ 52 ≤ m
  short : m < 2 ^ 53
  least : -1074 ≤ e
  most : e ≤ 971

theorem Normal.log2 (normal : Normal m e) : m.log2 = 52 :=
  (Nat.log2_eq_iff (by have := normal.full; omega)).mpr ⟨normal.full, normal.short⟩

theorem Normal.positive (normal : Normal m e) : 0 < m :=
  Nat.lt_of_lt_of_le (by norm_num) normal.full

theorem targetExponent_eq (range : -1022 ≤ m.log2 + e) :
    Format.binary64.targetExponent (totalExponent m e) = m.log2 + e - 52 := by
  simp only [Format.targetExponent, totalExponent, Format.mantissaBits, Format.minExponent]
  omega

/-- A mantissa with more bits than a double has is shifted to as many. -/
theorem shiftToTargetExponent_eq (range : -1022 ≤ m.log2 + e) (long : 52 ≤ m.log2) :
    shiftToTargetExponent .binary64 m e a =
      (ExtendedMantissa.ofMantissaAndAccuracy m a >>> (m.log2 - 52), e + (m.log2 - 52 : ℕ)) := by
  have amount : (m.log2 + e - 52 - e : ℤ).toNat = m.log2 - 52 := by omega
  unfold shiftToTargetExponent
  rw [targetExponent_eq range, shiftToExponent, amount]

theorem mantissa_ofMantissaAndAccuracy (m : ℕ) (a : Accuracy) :
    (ExtendedMantissa.ofMantissaAndAccuracy m a).mantissa = m := by
  rcases a with _ | (_ | _ | _) <;> rfl

/-- As many bits as a double has. -/
theorem div_two_pow_log2 (long : 52 ≤ m.log2) :
    2 ^ 52 ≤ m / 2 ^ (m.log2 - 52) ∧ m / 2 ^ (m.log2 - 52) < 2 ^ 53 := by
  have nonzero : m ≠ 0 := by
    rintro rfl
    simp at long
  have least := Nat.log2_self_le nonzero
  have most : m < 2 ^ (m.log2 + 1) := Nat.lt_log2_self
  constructor
  · rwa [Nat.le_div_iff_mul_le (by positivity), ← pow_add, Nat.add_sub_cancel' long]
  · rw [Nat.div_lt_iff_lt_mul (by positivity), ← pow_add]
    exact most.trans_eq (congrArg (2 ^ ·) (by omega))

/-- Shifted to as many bits as a double has, a mantissa still stands for its number. -/
theorem StandsFor.shiftToTargetExponent (stands : StandsFor (.ofMantissaAndAccuracy m a) e v)
    (full : 2 ^ 52 ≤ m) (normal : 2 ^ (-1022 : ℤ) ≤ v) :
    ∃ em e', shiftToTargetExponent .binary64 m e a = (em, e') ∧ StandsFor em e' v ∧
      2 ^ 52 ≤ em.mantissa ∧ em.mantissa < 2 ^ 53 ∧ -1074 ≤ e' := by
  have long : 52 ≤ m.log2 := (Nat.le_log2 (by omega)).mpr full
  -- what the mantissa stands for is below the next power of two, and above the least normal number
  have range : -1022 ≤ m.log2 + e := by
    have most : ((m + 1 : ℕ) : ℚ) ≤ 2 ^ (m.log2 + 1) := by exact_mod_cast Nat.lt_log2_self
    have ceil := stands.ceil
    rw [mantissa_ofMantissaAndAccuracy] at ceil
    have below : (2 : ℚ) ^ (-1022 : ℤ) < 2 ^ (m.log2 + 1 + e : ℤ) := by
      calc (2 : ℚ) ^ (-1022 : ℤ) ≤ v := normal
        _ < (m + 1 : ℕ) * 2 ^ e := by exact_mod_cast ceil
        _ ≤ 2 ^ (m.log2 + 1) * 2 ^ e := mul_le_mul_of_nonneg_right most (two_zpow_pos e).le
        _ = 2 ^ (m.log2 + 1 + e : ℤ) := by
          rw [zpow_add₀ (by norm_num)]
          norm_cast
    have := (zpow_lt_zpow_iff_right₀ (by norm_num)).mp below
    omega
  obtain ⟨enough, few⟩ := div_two_pow_log2 long
  refine ⟨_, _, shiftToTargetExponent_eq range long, stands.shift _, ?_, ?_, by omega⟩
  all_goals rwa [mantissa_shift, mantissa_ofMantissaAndAccuracy]

/-- What was rounded has as many bits as a double has, or is the next power of two, which is shifted
once more. -/
theorem shiftToTargetExponent_of_rounded {r : ℕ} (full : 2 ^ 52 ≤ r) (short : r ≤ 2 ^ 53)
    (least : -1074 ≤ e) :
    ∃ (m : ℕ) (e' : ℤ), shiftToTargetExponent .binary64 r e .exact = (⟨m, false, false⟩, e') ∧
      2 ^ 52 ≤ m ∧ m < 2 ^ 53 ∧ -1074 ≤ e' ∧ (m : ℚ) * 2 ^ e' = r * 2 ^ e := by
  rcases short.lt_or_eq with short | rfl
  · have bits : r.log2 = 52 := (Nat.log2_eq_iff (by omega)).mpr ⟨full, short⟩
    refine ⟨r, e, ?_, full, short, least, rfl⟩
    rw [shiftToTargetExponent_eq (by omega) bits.ge, bits]
    simp [HShiftRight.hShiftRight, Nat.repeat, ExtendedMantissa.ofMantissaAndAccuracy]
  · have bits : (2 ^ 53).log2 = 53 := Nat.log2_two_pow
    refine ⟨2 ^ 52, e + 1, ?_, le_rfl, by norm_num, by omega, ?_⟩
    · rw [shiftToTargetExponent_eq (by rw [bits]; omega) (by omega), bits]
      rfl
    · rw [zpow_add_one₀ (by norm_num)]
      push_cast
      ring

/-- **Rounding leads past no power of two.** What is not out of the range of the normal numbers
becomes a normal number. -/
theorem roundWithAccuracy_between (stands : StandsFor (.ofMantissaAndAccuracy m a) e v)
    (full : 2 ^ 52 ≤ m) (least : -1022 ≤ i) (most : j ≤ 1022) (lower : 2 ^ i ≤ v)
    (upper : v ≤ 2 ^ j) (s : Sign) :
    ∃ (m' : ℕ) (e' : ℤ) (positive : 0 < m'),
      roundWithAccuracy .binary64 s m e a = .finite s m' e' positive ∧ Normal m' e' ∧
        2 ^ i ≤ m' * (2 : ℚ) ^ e' ∧ m' * (2 : ℚ) ^ e' ≤ 2 ^ j := by
  have two : (1 : ℚ) < 2 := by norm_num
  obtain ⟨em, f, shifted, stands, enough, few, range⟩ :=
    stands.shiftToTargetExponent full ((zpow_le_zpow_right₀ two.le least).trans lower)
  obtain ⟨lower, upper⟩ := stands.between (by omega) lower upper
  have bits : 2 ^ 52 ≤ em.roundedMantissa ∧ em.roundedMantissa ≤ 2 ^ 53 := by
    rcases stands.rounded with same | ⟨up, _⟩ <;> omega
  obtain ⟨m', e', again, full', short, range, value⟩ :=
    shiftToTargetExponent_of_rounded bits.1 bits.2 range
  rw [← value] at lower upper
  have positive : 0 < m' := by omega
  refine ⟨m', e', positive, ?_, ⟨full', short, range, ?_⟩, lower, upper⟩
  · rw [roundWithAccuracy, shifted]
    dsimp only
    rw [again]
    exact dif_neg positive.ne'
  · have size : (2 : ℚ) ^ (52 + e') ≤ 2 ^ j := by
      refine le_trans ?_ upper
      rw [zpow_add₀ (by norm_num)]
      exact mul_le_mul_of_nonneg_right (by exact_mod_cast full') (two_zpow_pos e').le
    have := (zpow_le_zpow_iff_right₀ two).mp size
    omega

end Metrology.Double
