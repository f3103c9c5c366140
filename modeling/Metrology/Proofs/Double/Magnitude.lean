import Metrology.Proofs.Double.Rounding

/-!
# Magnitudes of doubles

How many bits a double is away from 1. Bits add up in products and quotients, exactly so, as long as
they do not leave the range of the normal numbers. So what is computed from numbers of moderate size
is above zero and finite.
-/
namespace Metrology.Double

open Float.Model Float.Model.UnpackedFloat

/-! ### Numbers -/

/-- No more than some bits away from 1. -/
def Moderate (b : ℕ) (v : ℚ) : Prop := (2 ^ b)⁻¹ ≤ v ∧ v ≤ 2 ^ b

variable {b c : ℕ} {v w : ℚ}

instance : Decidable (Moderate b v) := inferInstanceAs (Decidable (_ ∧ _))

theorem Moderate.positive (moderate : Moderate b v) : 0 < v :=
  lt_of_lt_of_le (by positivity) moderate.1

theorem Moderate.mono (moderate : Moderate b v) (more : b ≤ c) : Moderate c v := by
  have larger : (2 : ℚ) ^ b ≤ 2 ^ c := pow_le_pow_right₀ (by norm_num) more
  exact ⟨(inv_anti₀ (by positivity) larger).trans moderate.1, moderate.2.trans larger⟩

theorem Moderate.mul (first : Moderate b v) (second : Moderate c w) : Moderate (b + c) (v * w) := by
  constructor
  · rw [pow_add, mul_inv]
    exact mul_le_mul first.1 second.1 (by positivity) first.positive.le
  · rw [pow_add]
    exact mul_le_mul first.2 second.2 second.positive.le (by positivity)

theorem Moderate.inv (moderate : Moderate b v) : Moderate b v⁻¹ :=
  ⟨inv_anti₀ moderate.positive moderate.2, inv_le_of_inv_le₀ (by positivity) moderate.1⟩

theorem Moderate.div (first : Moderate b v) (second : Moderate c w) : Moderate (b + c) (v / w) :=
  div_eq_mul_inv v w ▸ first.mul second.inv

/-! ### Normal numbers -/

section Normal

variable {m : ℕ} {e : ℤ} {s : Sign} {positive : 0 < m}

theorem toNat_one_append (bits : BitVec 52) : (1#1 ++ bits).toNat = 2 ^ 52 + bits.toNat := by
  rw [BitVec.toNat_append, ← Nat.shiftLeft_add_eq_or_of_lt bits.isLt]
  rfl

theorem Normal.pack (normal : Normal m e) :
    UnpackedFloat.pack .binary64 (.finite s m e positive) =
      packComponents .binary64 s (BitVec.ofNat 11 (e + 1023 + 52).toNat) (BitVec.ofNat 52 m) := by
  have most := normal.most
  unfold UnpackedFloat.pack
  dsimp only
  rw [if_neg, if_pos]
  · rfl
  · rw [normal.log2]
    rfl
  · show ¬ 2 ^ 11 ≤ (e + 1023 + 52).toNat + 1
    omega

/-- A normal number is unpacked as it was packed. -/
theorem Normal.unpack_pack (normal : Normal m e) :
    (Float.Model.pack (.finite s m e positive)).unpack = .finite s m e positive := by
  show UnpackedFloat.unpack .binary64 (UnpackedFloat.pack .binary64 _) = _
  rw [normal.pack]
  obtain ⟨full, short, least, most⟩ := normal
  have mantissa : (1#1 ++ BitVec.ofNat 52 m).toNat = m := by
    rw [toNat_one_append, BitVec.toNat_ofNat]
    omega
  have exponent : (BitVec.ofNat 11 (e + 1023 + 52).toNat).toNat = (e + 1023 + 52).toNat := by
    rw [BitVec.toNat_ofNat, Nat.mod_eq_of_lt (by omega)]
  have inside (b : BitVec 11) (other : (e + 1023 + 52).toNat ≠ b.toNat) :
      BitVec.ofNat 11 (e + 1023 + 52).toNat ≠ b :=
    fun same => other (exponent.symm.trans (congrArg BitVec.toNat same))
  have finite := inside (-1#11) (show _ ≠ 2047 by omega)
  have nonzero := inside 0#11 (show _ ≠ 0 by omega)
  unfold UnpackedFloat.unpack
  simp only [unpackSign_packComponents, unpackExponent_packComponents,
    unpackMantissa_packComponents, Sign.ofBitVec_toBitVec, if_neg finite, if_neg nonzero,
    exponent, mantissa]
  congr 1
  show ((e + 1023 + 52).toNat : ℤ) - (1023 + 52) = e
  omega

/-- What is unpacked is normal unless it is too small. -/
theorem normal_of_unpack {x : Float.Model} (unpacked : x.unpack = .finite s m e positive)
    (large : (2 : ℚ) ^ (-1022 : ℤ) ≤ m * 2 ^ e) : Normal m e := by
  unfold Float.Model.unpack UnpackedFloat.unpack at unpacked
  dsimp only at unpacked
  have bits : (@unpackMantissa .binary64 x.toBits.toBitVec).toNat < 2 ^ 52 := BitVec.isLt _
  have range : (@unpackExponent .binary64 x.toBits.toBitVec).toNat < 2 ^ 11 :=
    BitVec.isLt _
  split at unpacked
  next => split at unpacked <;> cases unpacked
  next finite =>
    split at unpacked
    next subnormal =>
      split at unpacked
      next => cases unpacked
      next =>
        cases unpacked
        rw [subnormal, least_normal] at large
        have whole := le_of_mul_le_mul_right large (two_zpow_pos _)
        exact absurd (Nat.cast_le.mp whole) bits.not_ge
    next nonzero =>
      cases unpacked
      have least : (@unpackExponent .binary64 x.toBits.toBitVec).toNat ≠ 0 :=
        fun zero => nonzero (BitVec.eq_of_toNat_eq zero)
      have most : (@unpackExponent .binary64 x.toBits.toBitVec).toNat ≠ 2047 :=
        fun ones => finite (BitVec.eq_of_toNat_eq ones)
      rw [toNat_one_append]
      refine ⟨by omega, by omega, ?_, ?_⟩
      · show -1074 ≤ (_ : ℤ) - 1075
        omega
      · show (_ : ℤ) - 1075 ≤ 971
        omega

end Normal

/-! ### Doubles -/

/-- The number that a double above zero stands for. -/
def value? : UnpackedFloat → Option ℚ
  | .finite .positive m e _ => some (m * 2 ^ e)
  | _ => none

/-- A double above zero that is no more than some bits away from 1. -/
def OfSize (b : ℕ) (x : Float) : Prop := ∃ v ∈ value? x.toModel.unpack, Moderate b v

instance (x : Float) : Decidable (OfSize b x) :=
  inferInstanceAs (Decidable (∃ v ∈ value? _, Moderate b v))

/-- The smallest double above zero is out of the range of the normal numbers. -/
example : OfSize 1074 5e-324 ∧ ¬ OfSize 1022 5e-324 := by decide +kernel

variable {x y : Float}

theorem OfSize.mono (own : OfSize b x) (more : b ≤ c) : OfSize c x := by
  obtain ⟨v, is, moderate⟩ := own
  exact ⟨v, is, moderate.mono more⟩

theorem OfSize.finite (own : OfSize b x) :
    ∃ m e positive, x.toModel.unpack = .finite .positive m e positive ∧ Moderate b (m * 2 ^ e) := by
  obtain ⟨v, is, moderate⟩ := own
  cases unpacked : x.toModel.unpack with
  | notANumber | infinity | zero =>
    rw [unpacked] at is
    cases is
  | finite s m e positive =>
    rw [unpacked] at is
    cases s with
    | negative => cases is
    | positive =>
      obtain rfl : m * 2 ^ e = v := Option.some.inj is
      exact ⟨m, e, positive, rfl, moderate⟩

/-- A double of moderate size is a normal number. -/
theorem OfSize.normal (own : OfSize b x) (range : b ≤ 1022) :
    ∃ m e positive, x.toModel.unpack = .finite .positive m e positive ∧ Normal m e ∧
      Moderate b (m * 2 ^ e) := by
  obtain ⟨m, e, positive, unpacked, moderate⟩ := own.finite
  have large : (2 : ℚ) ^ (-1022 : ℤ) ≤ m * 2 ^ e := (moderate.mono range).1
  exact ⟨m, e, positive, unpacked, normal_of_unpack unpacked large, moderate⟩

/-- What is rounded is as moderate as the number. -/
theorem value?_pack_roundWithAccuracy {m : ℕ} {e : ℤ} {a : Accuracy}
    (stands : StandsFor (.ofMantissaAndAccuracy m a) e v) (full : 2 ^ 52 ≤ m)
    (moderate : Moderate b v) (range : b ≤ 1022) :
    ∃ w ∈ value? (Float.Model.pack (roundWithAccuracy .binary64 .positive m e a)).unpack,
      Moderate b w := by
  have reciprocal : (2 : ℚ) ^ (-b : ℤ) = (2 ^ b)⁻¹ := by rw [zpow_neg, zpow_natCast]
  obtain ⟨m', e', positive, rounded, normal, lower, upper⟩ :=
    roundWithAccuracy_between stands full (i := -b) (j := b) (by omega) (by omega)
      (reciprocal ▸ moderate.1) (by exact_mod_cast moderate.2) .positive
  rw [rounded, normal.unpack_pack]
  exact ⟨_, rfl, reciprocal ▸ lower, by exact_mod_cast upper⟩

theorem standsFor_exact (m : ℕ) (e : ℤ) :
    StandsFor (.ofMantissaAndAccuracy m .exact) e (m * 2 ^ e) where
  floor := le_rfl
  ceil := mul_lt_mul_of_pos_right (lt_add_one _) (two_zpow_pos e)
  beyond := nofun

/-- Sizes add up in a product. -/
theorem OfSize.mul (first : OfSize b x) (second : OfSize c y) (range : b + c ≤ 1022) :
    OfSize (b + c) (x * y) := by
  obtain ⟨m, e, positive, unpacked, normal, moderate⟩ := first.normal (by omega)
  obtain ⟨n, f, positive', unpacked', normal', moderate'⟩ := second.normal (by omega)
  have product : x.toModel.unpack.mul .binary64 y.toModel.unpack =
      roundWithAccuracy .binary64 .positive (m * n) (e + f) .exact := by
    rw [unpacked, unpacked']
    rfl
  have value : ((m * n : ℕ) : ℚ) * 2 ^ (e + f) = m * 2 ^ e * (n * 2 ^ f) := by
    rw [zpow_add₀ two_ne_zero]
    push_cast
    ring
  show ∃ v ∈ value? (Float.Model.pack (x.toModel.unpack.mul .binary64 y.toModel.unpack)).unpack, _
  rw [product]
  have full : 2 ^ 52 ≤ m * n := normal.full.trans (Nat.le_mul_of_pos_right _ normal'.positive)
  exact value?_pack_roundWithAccuracy (value ▸ standsFor_exact _ _) full (moderate.mul moderate')
    range

/-- A quotient stands for the fraction, with the remainder noted behind it. -/
theorem standsFor_quotient (m : ℕ) {n : ℕ} (positive : 0 < n) (e : ℤ) :
    StandsFor (.ofMantissaAndAccuracy (m / n) (accuracyOfFraction (m % n) n)) e
      (m / n * 2 ^ e) := by
  have size : (0 : ℚ) < n := by exact_mod_cast positive
  have parts : (m : ℚ) = n * (m / n : ℕ) + (m % n : ℕ) := by
    exact_mod_cast (Nat.div_add_mod m n).symm
  have fraction : (m : ℚ) / n = (m / n : ℕ) + (m % n : ℕ) / n := by
    rw [parts, add_div, mul_div_cancel_left₀ _ size.ne']
  constructor
  case floor =>
    rw [mantissa_ofMantissaAndAccuracy, fraction]
    refine mul_le_mul_of_nonneg_right (le_add_of_nonneg_right ?_) (two_zpow_pos e).le
    positivity
  case ceil =>
    rw [mantissa_ofMantissaAndAccuracy, fraction]
    refine mul_lt_mul_of_pos_right (add_lt_add_right ?_ _) (two_zpow_pos e)
    rw [div_lt_one size]
    exact_mod_cast Nat.mod_lt m positive
  case beyond =>
    intro set
    -- without a remainder no bit is set behind the quotient
    have rest : m % n ≠ 0 := by
      intro none
      rw [none] at set
      cases set
    rw [mantissa_ofMantissaAndAccuracy, fraction]
    refine mul_lt_mul_of_pos_right (lt_add_of_pos_right _ ?_) (two_zpow_pos e)
    have : (0 : ℚ) < (m % n : ℕ) := by exact_mod_cast Nat.pos_of_ne_zero rest
    positivity

/-- The numerator is shifted so far that the quotient has as many bits as a double has. -/
theorem divCore_normal {m n : ℕ} {e f : ℤ} (normal : Normal m e) (normal' : Normal n f)
    (large : (2 : ℚ) ^ (-1022 : ℤ) ≤ m * 2 ^ e / (n * 2 ^ f)) :
    ∃ (k : ℕ) (t : ℤ), divCore .binary64 m e n f =
        (m * 2 ^ k / n, t, accuracyOfFraction (m * 2 ^ k % n) n) ∧
      2 ^ 52 ≤ m * 2 ^ k / n ∧
      ((m * 2 ^ k : ℕ) : ℚ) / n * 2 ^ t = m * 2 ^ e / (n * 2 ^ f) := by
  have size : (0 : ℚ) < n := by exact_mod_cast normal'.positive
  have target : Format.binary64.targetExponent (totalExponent m e - totalExponent n f) =
      max (e - f - 53) (-1074) := by
    simp only [Format.targetExponent, totalExponent, Format.mantissaBits, Format.minExponent,
      normal.log2, normal'.log2]
    omega
  obtain ⟨t, least⟩ : ∃ t, t = min (e - f) (max (e - f - 53) (-1074)) := ⟨_, rfl⟩
  obtain ⟨k, shift⟩ : ∃ k : ℕ, (k : ℤ) = e - f - t := ⟨(e - f - t).toNat, by omega⟩
  have value : ((m * 2 ^ k : ℕ) : ℚ) / n * 2 ^ t = m * 2 ^ e / (n * 2 ^ f) := by
    have exponents : (2 : ℚ) ^ k * 2 ^ t = 2 ^ e / 2 ^ f := by
      rw [← zpow_natCast, ← zpow_add₀ two_ne_zero, ← zpow_sub₀ two_ne_zero, shift, sub_add_cancel]
    rw [Nat.cast_mul, Nat.cast_pow, Nat.cast_ofNat, div_mul_eq_mul_div, mul_assoc, exponents,
      mul_div_assoc, mul_div_assoc, div_div, mul_comm (2 ^ f)]
  refine ⟨k, t, ?_, ?_, value⟩
  · unfold divCore
    rw [target, ← least]
    dsimp only
    rw [← shift, Int.toNat_natCast, Nat.shiftLeft_eq]
  · rw [Nat.le_div_iff_mul_le normal'.positive]
    -- the numerator is shifted by 53 bits unless the exponent would be less than the least
    have cases : t ≤ -1074 ∨ k = 53 := by omega
    rcases cases with small | rfl
    · rw [← value, least_normal] at large
      have whole : ((2 ^ 52 : ℕ) : ℚ) ≤ (m * 2 ^ k : ℕ) / n := by
        refine le_of_mul_le_mul_right ?_ (two_zpow_pos (-1074))
        refine large.trans (mul_le_mul_of_nonneg_left ?_ (by positivity))
        exact zpow_le_zpow_right₀ (by norm_num) small
      rw [le_div_iff₀ size] at whole
      exact_mod_cast whole
    · have := normal.full
      have := normal'.short
      omega

/-- They do so in a quotient. -/
theorem OfSize.div (first : OfSize b x) (second : OfSize c y) (range : b + c ≤ 1022) :
    OfSize (b + c) (x / y) := by
  obtain ⟨m, e, positive, unpacked, normal, moderate⟩ := first.normal (by omega)
  obtain ⟨n, f, positive', unpacked', normal', moderate'⟩ := second.normal (by omega)
  have moderate := moderate.div moderate'
  have large : (2 : ℚ) ^ (-1022 : ℤ) ≤ m * 2 ^ e / (n * 2 ^ f) := moderate.mono range |>.1
  obtain ⟨k, t, core, full, value⟩ := divCore_normal normal normal' large
  have quotient : x.toModel.unpack.div .binary64 y.toModel.unpack =
      roundWithAccuracy .binary64 .positive (m * 2 ^ k / n) t
        (accuracyOfFraction (m * 2 ^ k % n) n) := by
    rw [unpacked, unpacked', UnpackedFloat.div, core]
    rfl
  show ∃ v ∈ value? (Float.Model.pack (x.toModel.unpack.div .binary64 y.toModel.unpack)).unpack, _
  rw [quotient]
  exact value?_pack_roundWithAccuracy (value ▸ standsFor_quotient _ positive' t) full moderate range

theorem OfSize.unsigned (own : OfSize b x) : Unsigned x := by
  obtain ⟨m, e, positive, unpacked, _⟩ := own.finite
  rw [Unsigned, unpacked]
  rfl

/-! ### Usable numbers -/

/-- Above zero and finite. -/
structure Usable (x : Float) : Prop where
  positive : 0 < x
  finite : x.isFinite = true

theorem Usable.of_unpack {m : ℕ} {e : ℤ} {positive : 0 < m}
    (unpacked : x.toModel.unpack = .finite .positive m e positive) : Usable x := by
  constructor
  · show decide ((0 : Float).toModel.unpack.lt x.toModel.unpack = true) = true
    rw [unpack_zero, unpacked]
    rfl
  · show x.toModel.unpack.isFinite = true
    rw [unpacked]
    rfl

theorem OfSize.usable (own : OfSize b x) : Usable x := by
  obtain ⟨m, e, positive, unpacked, _⟩ := own.finite
  exact .of_unpack unpacked

/-- A finite number that is not known to be zero or less is above zero. -/
theorem usable_of_not_le (positive : ¬ x ≤ 0) (finite : x.isFinite = true) : Usable x := by
  have above : ¬ decide (x.toModel.unpack.le (0 : Float).toModel.unpack = true) = true := positive
  have finite : x.toModel.unpack.isFinite = true := finite
  rw [unpack_zero] at above
  cases unpacked : x.toModel.unpack with
  | notANumber | infinity =>
    rw [unpacked] at finite
    cases finite
  | zero s =>
    rw [unpacked] at above
    exact absurd rfl above
  | finite s =>
    rw [unpacked] at above
    cases s with
    | negative => exact absurd rfl above
    | positive => exact .of_unpack unpacked

theorem Usable.ne_zero (usable : Usable x) : (x == 0) = false := by
  have above : decide ((0 : Float).toModel.unpack.lt x.toModel.unpack = true) = true :=
    usable.positive
  show x.toModel.unpack.beq (0 : Float).toModel.unpack = false
  rw [unpack_zero] at above ⊢
  cases unpacked : x.toModel.unpack with
  | notANumber => rfl
  | infinity s | finite s => cases s <;> rfl
  | zero s =>
    rw [unpacked] at above
    cases above

end Metrology.Double
