import StylePurge.Proofs.DoubleRounding
import StylePurge.Report

/-!
The share of a size that was taken away, in double precision. Two sizes are rounded in
their order, so their quotient does not pass one, and neither does one less the quotient.
None of the three roundings leads out of the interval from zero to one, because no
rounding passes a power of two.
-/

namespace StylePurge.Double

open Float.Model Float.Model.UnpackedFloat

/-- Zero, or a number of normal size up to one. -/
def Share (value : UnpackedFloat) : Prop :=
  value = .zero .positive ∨ ∃ number : Normal, value = number.unpacked ∧ number.AtMost .one

theorem at_most_one_of_carries {number : Normal} {rounded : Nat} {exponent : Int}
    (carries : number.Carries rounded exponent) (small : exponent ≤ -53) :
    number.AtMost .one := by
  unfold Normal.Carries at carries
  unfold Normal.AtMost Normal.one
  dsimp only
  omega

theorem normalize_natural (mantissa : Nat) (exponent : Int) :
    UnpackedFloat.normalize .binary64 mantissa exponent .positive =
      if mantissa = 0 then .zero .positive
      else UnpackedFloat.round .binary64 .positive mantissa exponent := by
  by_cases zero : mantissa = 0
  · subst zero
    rfl
  · have positive : compare (mantissa : Int) 0 = .gt := by
      rw [Int.compare_eq_gt]
      omega
    rw [if_neg zero, UnpackedFloat.normalize, positive]
    rfl

section Sizes

variable {size smaller : Nat}

theorem of_size (nonzero : size ≠ 0) (fits : size < 2 ^ 64) :
    ∃ number : Normal, UnpackedFloat.ofNat .binary64 size = number.unpacked ∧
      number.Carries (nearest size) ((size.log2 : Int) - 52) := by
  have width : size.log2 < 64 := (Nat.log2_lt nonzero).2 fits
  obtain ⟨number, rounded, carries⟩ := round_eq_nearest size 0 nonzero (by omega) (by omega)
  rw [Int.add_zero] at carries
  refine ⟨number, ?_, carries⟩
  rw [UnpackedFloat.ofNat, UnpackedFloat.ofInt, normalize_natural, if_neg nonzero, rounded]

/-- Rounding keeps the order of sizes. -/
theorem of_sizes (nonzero : smaller ≠ 0) (order : smaller ≤ size) (fits : size < 2 ^ 64) :
    ∃ small large : Normal, UnpackedFloat.ofNat .binary64 smaller = small.unpacked ∧
      UnpackedFloat.ofNat .binary64 size = large.unpacked ∧ small.AtMost large ∧
        -64 ≤ small.exponent - large.exponent := by
  have largeNonzero : size ≠ 0 := by omega
  have width : size.log2 < 64 := (Nat.log2_lt largeNonzero).2 fits
  obtain ⟨small, readSmall, smallCarries⟩ := of_size nonzero (Nat.lt_of_le_of_lt order fits)
  obtain ⟨large, readLarge, largeCarries⟩ := of_size largeNonzero fits
  refine ⟨small, large, readSmall, readLarge, ?_, ?_⟩
  · have widths : smaller.log2 ≤ size.log2 :=
      (Nat.le_log2 largeNonzero).2 (Nat.le_trans (Nat.log2_self_le nonzero) order)
    rcases Nat.lt_or_eq_of_le widths with below | same
    · exact Normal.at_most_of_lower smallCarries largeCarries (by omega)
    · rw [same] at smallCarries
      exact Normal.at_most_of_same smallCarries largeCarries (nearest_mono nonzero order same)
  · unfold Normal.Carries at smallCarries largeCarries
    omega

end Sizes

section Quotient

variable {numerator denominator : Normal}

/-- The quotient of the mantissas down to its 53rd place behind the point. -/
def quotientMantissa (numerator denominator : Normal) : Nat :=
  numerator.mantissa <<< 53 / denominator.mantissa

def quotientAccuracy (numerator denominator : Normal) : Accuracy :=
  accuracyOfFraction (numerator.mantissa <<< 53 % denominator.mantissa) denominator.mantissa

theorem quotient_bounds (numerator denominator : Normal) :
    2 ^ 52 ≤ quotientMantissa numerator denominator ∧
      quotientMantissa numerator denominator < 2 ^ 54 ∧
      (numerator.mantissa < denominator.mantissa →
        quotientMantissa numerator denominator < 2 ^ 53) := by
  have numeratorFull := numerator.full
  have numeratorBounded := numerator.bounded
  have denominatorFull := denominator.full
  have denominatorBounded := denominator.bounded
  have positive := denominator.mantissa_pos
  rw [quotientMantissa, Nat.shiftLeft_eq, Nat.le_div_iff_mul_le positive,
    Nat.div_lt_iff_lt_mul positive, Nat.div_lt_iff_lt_mul positive]
  omega

theorem div_normal (near : -64 ≤ numerator.exponent - denominator.exponent) :
    UnpackedFloat.div .binary64 numerator.unpacked denominator.unpacked =
      roundWithAccuracy .binary64 .positive (quotientMantissa numerator denominator)
        (numerator.exponent - denominator.exponent - 53)
        (quotientAccuracy numerator denominator) := by
  have numeratorWidth := log_of_width numerator.full numerator.bounded
  have denominatorWidth := log_of_width denominator.full denominator.bounded
  have chosen : min (numerator.exponent - denominator.exponent)
      (Format.binary64.targetExponent
        (totalExponent numerator.mantissa numerator.exponent -
          totalExponent denominator.mantissa denominator.exponent)) =
      numerator.exponent - denominator.exponent - 53 := by
    rw [target_eq_max, totalExponent, totalExponent, numeratorWidth, denominatorWidth]
    omega
  have count : (numerator.exponent - denominator.exponent -
      (numerator.exponent - denominator.exponent - 53)).toNat = 53 := by omega
  have core : divCore .binary64 numerator.mantissa numerator.exponent denominator.mantissa
      denominator.exponent = (quotientMantissa numerator denominator,
        numerator.exponent - denominator.exponent - 53, quotientAccuracy numerator denominator) := by
    rw [divCore, chosen, count]
    rfl
  have unfolded : UnpackedFloat.div .binary64 numerator.unpacked denominator.unpacked =
      let core := divCore .binary64 numerator.mantissa numerator.exponent denominator.mantissa
        denominator.exponent
      roundWithAccuracy .binary64 .positive core.1 core.2.1 core.2.2 := rfl
  rw [unfolded, core]

theorem quotient_self (number : Normal) :
    UnpackedFloat.div .binary64 number.unpacked number.unpacked = Normal.one.unpacked := by
  rw [div_normal (by omega), quotientMantissa, quotientAccuracy, Nat.shiftLeft_eq,
    Nat.mul_div_cancel_left _ number.mantissa_pos, Nat.mul_mod_right, Int.sub_self,
    accuracyOfFraction, if_pos rfl]
  rfl

theorem quotient_at_most_one (order : numerator.AtMost denominator)
    (near : -64 ≤ numerator.exponent - denominator.exponent) :
    ∃ share : Normal,
      UnpackedFloat.div .binary64 numerator.unpacked denominator.unpacked = share.unpacked ∧
        share.AtMost .one ∧ -170 ≤ share.exponent := by
  by_cases equal : numerator = denominator
  · subst equal
    exact ⟨.one, quotient_self numerator, .inr ⟨rfl, Nat.le_refl _⟩, by decide⟩
  · obtain ⟨full, bounded, halved⟩ := quotient_bounds numerator denominator
    have nonzero : quotientMantissa numerator denominator ≠ 0 := by omega
    have wide := (Nat.le_log2 nonzero).2 full
    have narrow := (Nat.log2_lt nonzero).2 bounded
    -- Below one, either the exponent or the width of the quotient is smaller.
    have below : numerator.exponent < denominator.exponent ∨
        numerator.exponent = denominator.exponent ∧
          (quotientMantissa numerator denominator).log2 < 53 := by
      refine order.imp_right fun ⟨exponents, mantissas⟩ => ⟨exponents, ?_⟩
      have different : numerator.mantissa ≠ denominator.mantissa := fun same =>
        equal (Normal.ext same exponents)
      exact (Nat.log2_lt nonzero).2 (halved (Nat.lt_of_le_of_ne mantissas different))
    obtain ⟨share, rounded, carries⟩ := round_with_accuracy _
      (numerator.exponent - denominator.exponent - 53) (quotientAccuracy numerator denominator)
      wide (by omega) (by omega)
    refine ⟨share, (div_normal near).trans rounded, ?_, ?_⟩
    · exact at_most_one_of_carries carries (by omega)
    · unfold Normal.Carries at carries
      omega

end Quotient

section Difference

variable {share : Normal}

theorem exponent_of_share (order : share.AtMost .one) : share.exponent ≤ -52 := by
  rcases order with lower | ⟨same, _⟩
  · exact Int.le_of_lt lower
  · exact Int.le_of_eq same

/-- Brought to the exponent of the share, one has the mantissa `2 ^ (-exponent)`. -/
theorem mantissa_of_share (order : share.AtMost .one) :
    share.mantissa ≤ 2 ^ (-share.exponent).toNat := by
  rcases order with lower | ⟨same, least⟩
  · have wide : 53 ≤ (-share.exponent).toNat := by
      have below : share.exponent < -52 := lower
      omega
    exact Nat.le_trans (Nat.le_of_lt share.bounded) (Nat.pow_le_pow_right Nat.two_pos wide)
  · rw [same]
    exact least

theorem one_sub (order : share.AtMost .one) :
    UnpackedFloat.sub .binary64 Normal.one.unpacked share.unpacked =
      UnpackedFloat.normalize .binary64 (2 ^ (-share.exponent).toNat - share.mantissa : Nat)
        share.exponent .positive := by
  have upper := exponent_of_share order
  have lower : min (-52) share.exponent = share.exponent := Int.min_eq_right upper
  have widened : (2 ^ 52 : Nat) <<< (-52 - share.exponent).toNat = 2 ^ (-share.exponent).toNat := by
    have total : 52 + (-52 - share.exponent).toNat = (-share.exponent).toNat := by omega
    rw [Nat.shiftLeft_eq, ← Nat.pow_add, total]
  have kept : share.mantissa <<< (share.exponent - share.exponent).toNat = share.mantissa := by
    rw [Int.sub_self]
    rfl
  have unfolded : UnpackedFloat.sub .binary64 Normal.one.unpacked share.unpacked =
      UnpackedFloat.normalize .binary64
        (((2 ^ 52 : Nat) <<< (-52 - min (-52) share.exponent).toNat : Nat) -
          (share.mantissa <<< (share.exponent - min (-52) share.exponent).toNat : Nat))
        (min (-52) share.exponent) .positive := rfl
  rw [unfolded, lower, widened, kept, Int.ofNat_sub (mantissa_of_share order)]

theorem one_less_share (order : share.AtMost .one) (least : -170 ≤ share.exponent) :
    Share (UnpackedFloat.sub .binary64 Normal.one.unpacked share.unpacked) := by
  rw [one_sub order, normalize_natural]
  by_cases zero : 2 ^ (-share.exponent).toNat - share.mantissa = 0
  · rw [if_pos zero]
    exact .inl rfl
  · rw [if_neg zero]
    have small : 2 ^ (-share.exponent).toNat - share.mantissa < 2 ^ (-share.exponent).toNat :=
      Nat.sub_lt (Nat.two_pow_pos _) share.mantissa_pos
    have narrow := (Nat.log2_lt zero).2 small
    have upper := exponent_of_share order
    obtain ⟨rest, rounded, carries⟩ := round_eq_nearest _ share.exponent zero
      (by omega) (by omega)
    exact .inr ⟨rest, rounded, at_most_one_of_carries carries (by omega)⟩

end Difference

section Floats

theorem unpack_pack_share {value : UnpackedFloat} (share : Share value) :
    (Float.Model.pack value).unpack = value := by
  rcases share with rfl | ⟨number, rfl, _⟩
  · rfl
  · exact unpack_pack number

theorem unpack_sub (left right : Float) :
    (left - right).toModel.unpack = (Float.Model.pack
      (UnpackedFloat.sub .binary64 left.toModel.unpack right.toModel.unpack)).unpack := rfl

theorem unpack_div (left right : Float) :
    (left / right).toModel.unpack = (Float.Model.pack
      (UnpackedFloat.div .binary64 left.toModel.unpack right.toModel.unpack)).unpack := rfl

theorem unpack_size {size : Nat} (fits : size < 2 ^ 64) :
    (UInt64.ofNat size).toFloat.toModel.unpack =
      (Float.Model.pack (UnpackedFloat.ofNat .binary64 size)).unpack := by
  have read : (UInt64.ofNat size).toNat = size := UInt64.toNat_ofNat_of_lt fits
  have unfolded : (UInt64.ofNat size).toFloat.toModel.unpack =
      (Float.Model.pack (UnpackedFloat.ofNat .binary64 (UInt64.ofNat size).toNat)).unpack := rfl
  rw [unfolded, read]

theorem unpack_zero : (0.0 : Float).toModel.unpack = .zero .positive := rfl

theorem unpack_one : (1.0 : Float).toModel.unpack = Normal.one.unpacked := rfl

theorem le_iff (left right : Float) :
    left ≤ right ↔ UnpackedFloat.le left.toModel.unpack right.toModel.unpack = true :=
  decide_eq_true_iff

theorem le_of_at_most {left right : Normal} (order : left.AtMost right) :
    UnpackedFloat.le left.unpacked right.unpacked = true := by
  have compared : UnpackedFloat.le left.unpacked right.unpacked =
      ((compare left.exponent right.exponent).then
        (compare left.mantissa right.mantissa)).isLE := rfl
  rw [compared]
  rcases order with lower | ⟨same, least⟩
  · rw [Int.compare_eq_lt.2 lower]
    rfl
  · rw [Int.compare_eq_eq.2 same]
    exact Nat.isLE_compare.2 least

theorem within_unit {ratio : Float} (share : Share ratio.toModel.unpack) :
    0.0 ≤ ratio ∧ ratio ≤ 1.0 := by
  rw [le_iff, le_iff, unpack_zero, unpack_one]
  rcases share with read | ⟨number, read, order⟩
  · rw [read]
    exact ⟨rfl, rfl⟩
  · rw [read]
    exact ⟨rfl, le_of_at_most order⟩

theorem share_of_sizes {smaller size : Nat} (nonzero : size ≠ 0) (order : smaller ≤ size)
    (fits : size < 2 ^ 64) :
    Share (1.0 - (UInt64.ofNat smaller).toFloat / (UInt64.ofNat size).toFloat).toModel.unpack := by
  have difference : Share (UnpackedFloat.sub .binary64 Normal.one.unpacked
      ((UInt64.ofNat smaller).toFloat / (UInt64.ofNat size).toFloat).toModel.unpack) := by
    rw [unpack_div, unpack_size fits, unpack_size (Nat.lt_of_le_of_lt order fits)]
    by_cases empty : smaller = 0
    · obtain ⟨large, read, _⟩ := of_size nonzero fits
      have nothing : (Float.Model.pack (UnpackedFloat.ofNat .binary64 0)).unpack =
          .zero .positive := rfl
      have divided : UnpackedFloat.div .binary64 (.zero .positive) large.unpacked =
          .zero .positive := rfl
      rw [empty, nothing, read, unpack_pack, divided]
      exact .inr ⟨.one, rfl, .inr ⟨rfl, Nat.le_refl _⟩⟩
    · obtain ⟨small, large, readSmall, readLarge, ordered, near⟩ := of_sizes empty order fits
      obtain ⟨share, divided, atMost, least⟩ := quotient_at_most_one ordered near
      rw [readSmall, readLarge, unpack_pack, unpack_pack, divided, unpack_pack]
      exact one_less_share atMost least
  rw [unpack_sub, unpack_one, unpack_pack_share difference]
  exact difference

end Floats

end StylePurge.Double

namespace StylePurge

/-- As long as the output is no larger, the ratio is a share of the input, rounded as it is. -/
theorem Statistics.ratio_within_unit (statistics : Statistics)
    (fits : statistics.inputSize < 2 ^ 64)
    (order : statistics.outputSize ≤ statistics.inputSize) :
    0.0 ≤ statistics.reductionRatio ∧ statistics.reductionRatio ≤ 1.0 := by
  apply Double.within_unit
  rw [Statistics.reductionRatio]
  by_cases zero : statistics.inputSize = 0
  · rw [if_pos zero]
    exact .inl rfl
  · rw [if_neg zero]
    exact Double.share_of_sizes zero order fits

end StylePurge
