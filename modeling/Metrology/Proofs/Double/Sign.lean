import Mathlib
import Metrology.Scalar

/-!
# Signs of doubles

Neither multiplying nor dividing doubles gives a sign to numbers without one, whatever is rounded.
-/
namespace Metrology.Double

open Float.Model Float.Model.UnpackedFloat

/-- The sign of what is not a number counts as positive. -/
def signOf : UnpackedFloat → Sign
  | .notANumber => .positive
  | .infinity s | .zero s | .finite s _ _ _ => s

/-- Not a number, zero, a number above zero or the positive infinity. -/
def Unsigned (x : Float) : Prop := signOf x.toModel.unpack = .positive

instance (x : Float) : Decidable (Unsigned x) :=
  decidable_of_iff ((signOf x.toModel.unpack == .positive) = true) beq_iff_eq

theorem signOf_unpack_packComponents (e : BitVec 11) (m : BitVec 52) :
    signOf (unpack .binary64 (packComponents .binary64 .positive e m)) = .positive := by
  unfold UnpackedFloat.unpack
  simp only [unpackSign_packComponents, Sign.ofBitVec_toBitVec]
  repeat' split
  all_goals rfl

/-- Packing gives no sign. -/
theorem signOf_unpack_pack {f : UnpackedFloat} (unsigned : signOf f = .positive) :
    signOf (Float.Model.pack f).unpack = .positive := by
  cases f with
  | notANumber => exact congrArg signOf unpack_packedNaN
  | infinity s =>
    obtain rfl : s = .positive := unsigned
    exact signOf_unpack_packComponents _ _
  | zero s =>
    obtain rfl : s = .positive := unsigned
    exact congrArg signOf unpack_packedZero
  | finite s m e positive =>
    obtain rfl : s = .positive := unsigned
    show signOf (unpack _ (UnpackedFloat.pack _ _)) = _
    unfold UnpackedFloat.pack
    dsimp only
    split
    · exact signOf_unpack_packComponents _ _
    · split <;> exact signOf_unpack_packComponents _ _

/-- Neither does rounding. -/
theorem signOf_roundWithAccuracy (spec : Format) (s : Sign) (m : ℕ) (e : ℤ) (a : Accuracy) :
    signOf (roundWithAccuracy spec s m e a) = s := by
  unfold roundWithAccuracy
  dsimp only
  split <;> rfl

theorem signOf_mul {a b : UnpackedFloat} (first : signOf a = .positive)
    (second : signOf b = .positive) : signOf (UnpackedFloat.mul .binary64 a b) = .positive := by
  cases a <;> cases b <;> cases first <;> cases second
  case finite.finite => exact signOf_roundWithAccuracy _ _ _ _ _
  all_goals rfl

theorem signOf_div {a b : UnpackedFloat} (first : signOf a = .positive)
    (second : signOf b = .positive) : signOf (UnpackedFloat.div .binary64 a b) = .positive := by
  cases a <;> cases b <;> cases first <;> cases second
  case finite.finite => exact signOf_roundWithAccuracy _ _ _ _ _
  all_goals rfl

variable {x y : Float}

theorem Unsigned.mul (first : Unsigned x) (second : Unsigned y) : Unsigned (x * y) :=
  signOf_unpack_pack (signOf_mul first second)

theorem Unsigned.div (first : Unsigned x) (second : Unsigned y) : Unsigned (x / y) :=
  signOf_unpack_pack (signOf_div first second)

theorem unpack_zero : (0 : Float).toModel.unpack = .zero .positive :=
  unpack_packedZero

theorem Unsigned.not_lt_zero (unsigned : Unsigned x) : ¬ x < 0 := by
  show ¬ decide (x.toModel.unpack.lt (0 : Float).toModel.unpack = true) = true
  rw [unpack_zero]
  rw [Unsigned] at unsigned
  revert unsigned
  cases x.toModel.unpack with
  | notANumber => exact fun _ => nofun
  | infinity s | zero s | finite s =>
    rintro rfl
    exact nofun

/-- What is not known to be zero or less has no sign. -/
theorem unsigned_of_not_le (positive : ¬ x ≤ 0) : Unsigned x := by
  have positive : ¬ decide (x.toModel.unpack.le (0 : Float).toModel.unpack = true) = true :=
    positive
  rw [unpack_zero] at positive
  rw [Unsigned]
  revert positive
  cases x.toModel.unpack with
  | notANumber => exact fun _ => rfl
  | infinity s | zero s | finite s =>
    cases s <;> simp [signOf, UnpackedFloat.le, UnpackedFloat.compare]

/-! ### Reading -/

theorem unsigned_ofUInt64 (n : UInt64) : Unsigned n.toFloat := by
  have natural : signOf (.ofNat .binary64 n.toNat) = .positive := by
    rw [UnpackedFloat.ofNat, UnpackedFloat.ofInt, UnpackedFloat.normalize]
    cases order : compare (n.toNat : ℤ) 0 with
    | lt => exact absurd (Int.compare_eq_lt.mp order) (by omega)
    | eq => rfl
    | gt => exact signOf_roundWithAccuracy _ _ _ _ _
  exact signOf_unpack_pack natural

theorem unsigned_powerOfTen :
    ∀ x ∈ Float.exactlyRepresentablePowersOfTen, Unsigned x := by
  decide +kernel

theorem signOf_ofScientific (m : ℕ) (e : ℤ) :
    signOf (UnpackedFloat.ofScientific .binary64 m e) = .positive := by
  unfold UnpackedFloat.ofScientific
  split
  next => rfl
  next =>
    split
    next => rfl
    next =>
      split
      next => rfl
      next => split <;> exact signOf_roundWithAccuracy _ _ _ _ _

/-- A decimal without a sign is read as such. -/
theorem unsigned_ofScientific (m : ℕ) (s : Bool) (e : ℕ) : Unsigned (Float.ofScientific m s e) := by
  unfold Float.ofScientific
  dsimp only
  split
  next small =>
    have power := unsigned_powerOfTen _ (Array.getElem_mem (Nat.lt_succ_of_le small.2))
    split
    next => exact (unsigned_ofUInt64 _).div power
    next => exact (unsigned_ofUInt64 _).mul power
  next => exact signOf_unpack_pack (signOf_ofScientific _ _)

end Metrology.Double
