import Mathlib.Algebra.Group.Nat.Defs

/-!
Rounding to double precision. A positive number of normal size is held as a mantissa of
exactly 53 bits and an exponent. A longer mantissa is shifted right to that width and goes
to the nearer neighbour, which may carry into one more bit. What is used of this later is
that rounding keeps the order of two numbers and does not lead beyond a power of two.
-/

namespace StylePurge.Double

open Float.Model Float.Model.UnpackedFloat

/-- A positive number as a mantissa of exactly 53 bits and an exponent. -/
@[ext]
structure Normal where
  mantissa : Nat
  exponent : Int
  full : 2 ^ 52 ≤ mantissa
  bounded : mantissa < 2 ^ 53
  least : -1074 ≤ exponent
  most : exponent ≤ 971

namespace Normal

theorem mantissa_pos (number : Normal) : 0 < number.mantissa :=
  Nat.lt_of_lt_of_le (Nat.two_pow_pos 52) number.full

def unpacked (number : Normal) : UnpackedFloat :=
  .finite .positive number.mantissa number.exponent number.mantissa_pos

def one : Normal := ⟨2 ^ 52, -52, by decide, by decide, by decide, by decide⟩

def AtMost (left right : Normal) : Prop :=
  left.exponent < right.exponent ∨
    (left.exponent = right.exponent ∧ left.mantissa ≤ right.mantissa)

/-- What rounding to `rounded` comes to: a mantissa of 54 bits is shifted once more. -/
def Carries (number : Normal) (rounded : Nat) (exponent : Int) : Prop :=
  (number.mantissa = rounded ∧ number.exponent = exponent) ∨
    (rounded = 2 ^ 53 ∧ number.mantissa = 2 ^ 52 ∧ number.exponent = exponent + 1)

variable {left right : Normal} {lower upper : Nat} {low high : Int}

theorem at_most_of_lower (first : left.Carries lower low) (second : right.Carries upper high)
    (below : low < high) : left.AtMost right := by
  have full := right.full
  unfold Carries at first second
  unfold AtMost
  omega

theorem at_most_of_same (first : left.Carries lower low) (second : right.Carries upper low)
    (order : lower ≤ upper) : left.AtMost right := by
  have bounded := right.bounded
  unfold Carries at first second
  unfold AtMost
  omega

end Normal

theorem log_shift {mantissa : Nat} (nonzero : mantissa ≠ 0) (count : Nat) :
    (mantissa <<< count).log2 = mantissa.log2 + count := by
  induction count with
  | zero => rfl
  | succ count induction =>
      have still : mantissa <<< count ≠ 0 := by
        rw [Nat.shiftLeft_eq]
        exact Nat.mul_ne_zero nonzero (Nat.ne_of_gt (Nat.two_pow_pos count))
      rw [Nat.shiftLeft_succ, Nat.log2_two_mul still, induction, Nat.add_assoc]

theorem log_of_width {mantissa width : Nat} (full : 2 ^ width ≤ mantissa)
    (bounded : mantissa < 2 ^ (width + 1)) : mantissa.log2 = width := by
  have nonzero : mantissa ≠ 0 := Nat.ne_of_gt (Nat.lt_of_lt_of_le (Nat.two_pow_pos width) full)
  exact (Nat.log2_eq_iff nonzero).2 ⟨full, bounded⟩

theorem unpack_sign (sign : Sign) (exponent : BitVec 11) (mantissa : BitVec 52) :
    unpackSign (packComponents .binary64 sign exponent mantissa) = sign.toBitVec := by
  have first : (sign.toBitVec ++ exponent ++ mantissa).extractLsb 63 63 = sign.toBitVec := by
    rw [BitVec.extractLsb, BitVec.extractLsb'_append_eq_of_le (by decide),
      BitVec.extractLsb'_append_eq_of_le (by decide)]
    exact BitVec.extractLsb'_eq_self
  exact first

theorem leading_one (mantissa : BitVec 52) :
    (1#1 ++ mantissa).toNat = 2 ^ 52 + mantissa.toNat := by
  rw [BitVec.toNat_append, ← Nat.shiftLeft_add_eq_or_of_lt mantissa.isLt, Nat.shiftLeft_eq,
    BitVec.toNat_ofNat, Nat.one_mul]

theorem finite_congr {mantissa other : Nat} {exponent same : Int} {positive : 0 < mantissa}
    (mantissas : mantissa = other) (exponents : exponent = same) :
    UnpackedFloat.finite .positive mantissa exponent positive =
      .finite .positive other same (mantissas ▸ positive) := by
  subst mantissas exponents
  rfl

theorem unpack_components (exponent : BitVec 11) (mantissa : BitVec 52)
    (notSpecial : exponent ≠ -1#11) (notSmall : exponent ≠ 0#11) :
    UnpackedFloat.unpack .binary64 (packComponents .binary64 .positive exponent mantissa) =
      .finite .positive (2 ^ 52 + mantissa.toNat) (exponent.toNat - 1075)
        (Nat.add_pos_left (Nat.two_pow_pos 52) _) := by
  let bits := packComponents .binary64 .positive exponent mantissa
  have readExponent : unpackExponent bits = exponent := unpackExponent_packComponents
  have readMantissa : unpackMantissa bits = mantissa := unpackMantissa_packComponents
  have special : ¬unpackExponent bits = -1#11 := by rwa [readExponent]
  have small : ¬unpackExponent bits = 0#11 := by rwa [readExponent]
  refine ((if_neg special).trans (if_neg small)).trans ?_
  have sign : Sign.ofBitVec (unpackSign bits) = .positive := by
    rw [unpack_sign]
    rfl
  have whole : (1#1 ++ unpackMantissa bits).toNat = 2 ^ 52 + mantissa.toNat := by
    rw [readMantissa]
    exact leading_one mantissa
  rw [sign]
  apply finite_congr whole
  rw [readExponent]
  rfl

/-- The exponent as it is stored, between zero for small numbers and ones for special values. -/
def Normal.stored (number : Normal) : BitVec 11 := BitVec.ofNat 11 (number.exponent + 1075).toNat

theorem stored_to_nat (number : Normal) :
    (number.stored.toNat : Int) = number.exponent + 1075 := by
  have least := number.least
  have most := number.most
  rw [Normal.stored, BitVec.toNat_ofNat, Nat.mod_eq_of_lt (by omega)]
  omega

theorem pack_normal (number : Normal) :
    UnpackedFloat.pack .binary64 number.unpacked =
      packComponents .binary64 .positive number.stored (BitVec.ofNat 52 number.mantissa) := by
  have most := number.most
  have small : ¬2 ^ 11 ≤ (number.exponent + 1023 + 52).toNat + 1 := by omega
  have width : number.mantissa.log2 + 1 = 53 :=
    congrArg (· + 1) (log_of_width number.full number.bounded)
  have biased : (number.exponent + 1023 + 52).toNat = (number.exponent + 1075).toNat := by omega
  have branch : UnpackedFloat.pack .binary64 number.unpacked =
      if 2 ^ 11 ≤ (number.exponent + 1023 + 52).toNat + 1 then packedInfinity .binary64 .positive
      else if number.mantissa.log2 + 1 = 53 then
        packComponents .binary64 .positive
          (BitVec.ofNat 11 (number.exponent + 1023 + 52).toNat) (BitVec.ofNat 52 number.mantissa)
      else packComponents .binary64 .positive (0#11) (BitVec.ofNat 52 number.mantissa) := rfl
  rw [branch, if_neg small, if_pos width, biased]
  rfl

theorem unpack_pack (number : Normal) :
    (Float.Model.pack number.unpacked).unpack = number.unpacked := by
  have stored := stored_to_nat number
  have notSpecial : number.stored ≠ -1#11 := by
    intro special
    have top : ((-1#11).toNat : Int) = 2047 := rfl
    have most := number.most
    rw [special] at stored
    omega
  have notSmall : number.stored ≠ 0#11 := by
    intro small
    have bottom : ((0#11).toNat : Int) = 0 := rfl
    have least := number.least
    rw [small] at stored
    omega
  have read := unpack_components _ (BitVec.ofNat 52 number.mantissa) notSpecial notSmall
  rw [← pack_normal] at read
  refine read.trans ?_
  have low : 2 ^ 52 + (BitVec.ofNat 52 number.mantissa).toNat = number.mantissa := by
    have full := number.full
    have bounded := number.bounded
    rw [BitVec.toNat_ofNat]
    omega
  have exponent : (number.stored.toNat : Int) - 1075 = number.exponent := by omega
  exact finite_congr low exponent

section Shift

/-- A mantissa with its round and sticky bit, in fourths of its last place. -/
def fourths (extended : ExtendedMantissa) : Nat :=
  4 * extended.mantissa + (2 * extended.roundBit.toNat + extended.stickyBit.toNat)

variable (extended : ExtendedMantissa)

theorem fourths_div : fourths extended / 4 = extended.mantissa := by
  have round := Bool.toNat_le extended.roundBit
  have sticky := Bool.toNat_le extended.stickyBit
  rw [fourths]
  omega

/-- What is shifted out beyond the round bit only shows as the sticky bit. -/
theorem fourths_shift_one :
    fourths extended.shiftRightOne = 2 * (fourths extended / 4) + min 1 (fourths extended % 4) := by
  have last : (extended.mantissa % 2 != 0).toNat = extended.mantissa % 2 := by
    rcases Nat.mod_two_eq_zero_or_one extended.mantissa with even | odd
    · rw [even]
      rfl
    · rw [odd]
      rfl
  have lost : (extended.roundBit || extended.stickyBit).toNat = min 1 (fourths extended % 4) := by
    rw [fourths, Nat.mul_add_mod]
    cases extended.roundBit <;> cases extended.stickyBit <;> rfl
  rw [← lost, fourths_div, fourths, ExtendedMantissa.shiftRightOne]
  dsimp only
  rw [last]
  omega

/-- To the nearest neighbour, and halfway to the even one. -/
theorem rounded_eq :
    extended.roundedMantissa = (fourths extended + 1 + extended.mantissa % 2) / 4 := by
  obtain ⟨mantissa, roundBit, stickyBit⟩ := extended
  cases roundBit <;> cases stickyBit <;>
    simp only [fourths, ExtendedMantissa.roundedMantissa, ExtendedMantissa.accuracy,
      Accuracy.roundToNearestEven, Bool.toNat_true, Bool.toNat_false] <;>
    omega

theorem rounded_bounds :
    extended.mantissa ≤ extended.roundedMantissa ∧
      extended.roundedMantissa ≤ extended.mantissa + 1 := by
  have whole := fourths_div extended
  rw [rounded_eq]
  omega

theorem shift_succ (count : Nat) :
    extended >>> (count + 1) = (extended >>> count).shiftRightOne := rfl

theorem mantissa_shift (count : Nat) :
    (extended >>> count).mantissa = extended.mantissa / 2 ^ count := by
  induction count with
  | zero => exact (Nat.div_one extended.mantissa).symm
  | succ count induction =>
      rw [shift_succ, ExtendedMantissa.shiftRightOne, induction, Nat.div_div_eq_div_mul,
        Nat.pow_succ]

variable {left right : ExtendedMantissa}

theorem fourths_shift_mono (order : fourths left ≤ fourths right) (count : Nat) :
    fourths (left >>> count) ≤ fourths (right >>> count) := by
  induction count with
  | zero => exact order
  | succ count induction =>
      rw [shift_succ, shift_succ, fourths_shift_one, fourths_shift_one]
      omega

theorem rounded_mono (order : fourths left ≤ fourths right) :
    left.roundedMantissa ≤ right.roundedMantissa := by
  have wholes := Nat.div_le_div_right order (c := 4)
  rw [fourths_div, fourths_div] at wholes
  rcases Nat.lt_or_eq_of_le wholes with below | same
  · exact Nat.le_trans (rounded_bounds left).2 (Nat.le_trans below (rounded_bounds right).1)
  · rw [rounded_eq, rounded_eq, same]
    exact Nat.div_le_div_right (Nat.add_le_add_right (Nat.add_le_add_right order 1) _)

end Shift

section Round

variable (mantissa : Nat) (exponent : Int) (accuracy : Accuracy)

/-- A mantissa of more than 53 bits with the bits behind them as round and sticky bit. -/
def shortened : ExtendedMantissa :=
  ExtendedMantissa.ofMantissaAndAccuracy mantissa accuracy >>> (mantissa.log2 - 52)

theorem shortened_bounds (wide : 52 ≤ mantissa.log2) :
    2 ^ 52 ≤ (shortened mantissa accuracy).mantissa ∧
      (shortened mantissa accuracy).mantissa < 2 ^ 53 := by
  have whole : (ExtendedMantissa.ofMantissaAndAccuracy mantissa accuracy).mantissa = mantissa := by
    cases accuracy with
    | exact => rfl
    | inexact side => cases side <;> rfl
  have nonzero : mantissa ≠ 0 := by
    rintro rfl
    exact absurd wide (by decide)
  have split : 52 + (mantissa.log2 - 52) = mantissa.log2 := Nat.add_sub_cancel' wide
  rw [shortened, mantissa_shift, whole]
  constructor
  · rw [Nat.le_div_iff_mul_le (Nat.two_pow_pos _), ← Nat.pow_add, split]
    exact Nat.log2_self_le nonzero
  · rw [Nat.div_lt_iff_lt_mul (Nat.two_pow_pos _), ← Nat.pow_add, Nat.add_right_comm 52 1, split]
    exact Nat.lt_log2_self

theorem target_eq_max (total : Int) :
    Format.binary64.targetExponent total = max (total - 53) (-1074) := rfl

theorem target_exponent (least : -1022 ≤ mantissa.log2 + exponent) :
    Format.binary64.targetExponent (totalExponent mantissa exponent) =
      mantissa.log2 + exponent - 52 := by
  rw [target_eq_max, totalExponent]
  omega

theorem shift_to_target (wide : 52 ≤ mantissa.log2) (least : -1022 ≤ mantissa.log2 + exponent) :
    shiftToTargetExponent .binary64 mantissa exponent accuracy =
      (shortened mantissa accuracy, mantissa.log2 + exponent - 52) := by
  have count : (mantissa.log2 + exponent - 52 - exponent).toNat = mantissa.log2 - 52 := by omega
  rw [shiftToTargetExponent, target_exponent mantissa exponent least, shiftToExponent, count]
  refine Prod.ext rfl ?_
  dsimp only
  omega

variable {mantissa exponent accuracy}

theorem round_of_shifts (number : Normal) {first second : ExtendedMantissa} {middle : Int}
    (cut : shiftToTargetExponent .binary64 mantissa exponent accuracy = (first, middle))
    (settled : shiftToTargetExponent .binary64 first.roundedMantissa middle .exact =
      (second, number.exponent))
    (result : second.mantissa = number.mantissa) :
    roundWithAccuracy .binary64 .positive mantissa exponent accuracy = number.unpacked := by
  have nonzero : second.mantissa ≠ 0 := by
    rw [result]
    exact Nat.ne_of_gt number.mantissa_pos
  rw [roundWithAccuracy, cut]
  dsimp only
  rw [settled]
  exact (dif_neg nonzero).trans (finite_congr result rfl)

section Settled

variable {first : ExtendedMantissa} {middle : Int}
  (cut : shiftToTargetExponent .binary64 mantissa exponent accuracy = (first, middle))
  (least : -1074 ≤ middle) (most : middle ≤ 970)

include cut

theorem round_within (full : 2 ^ 52 ≤ first.roundedMantissa)
    (within : first.roundedMantissa < 2 ^ 53) :
    roundWithAccuracy .binary64 .positive mantissa exponent accuracy =
      Normal.unpacked ⟨first.roundedMantissa, middle, full, within, least, by omega⟩ := by
  have width : first.roundedMantissa.log2 = 52 := log_of_width full within
  have settled := shift_to_target first.roundedMantissa middle .exact (Nat.le_of_eq width.symm)
    (by omega)
  refine round_of_shifts _ cut (settled.trans (Prod.ext rfl ?_)) ?_
  · dsimp only
    omega
  · rw [shortened, mantissa_shift, width]
    exact Nat.div_one _

theorem round_carried (carried : first.roundedMantissa = 2 ^ 53) :
    roundWithAccuracy .binary64 .positive mantissa exponent accuracy =
      Normal.unpacked ⟨2 ^ 52, middle + 1, by decide, by decide, by omega, by omega⟩ := by
  have width : (2 ^ 53 : Nat).log2 = 53 := rfl
  have settled := shift_to_target (2 ^ 53) middle .exact (by decide) (by omega)
  rw [← carried] at settled
  refine round_of_shifts _ cut (settled.trans (Prod.ext rfl ?_)) ?_
  · dsimp only
    rw [carried, width]
    omega
  · rw [shortened, mantissa_shift, carried, width]
    rfl

end Settled

variable (mantissa exponent accuracy)

/-- Rounding gives 53 bits, unless it carries into a power of two; that is shifted once more. -/
theorem round_with_accuracy (wide : 52 ≤ mantissa.log2)
    (least : -1022 ≤ mantissa.log2 + exponent) (most : mantissa.log2 + exponent ≤ 1022) :
    ∃ number : Normal,
      roundWithAccuracy .binary64 .positive mantissa exponent accuracy = number.unpacked ∧
        number.Carries (shortened mantissa accuracy).roundedMantissa
          (mantissa.log2 + exponent - 52) := by
  have cut := shift_to_target mantissa exponent accuracy wide least
  obtain ⟨full, bounded⟩ := shortened_bounds mantissa accuracy wide
  obtain ⟨low, high⟩ := rounded_bounds (shortened mantissa accuracy)
  rcases Nat.lt_or_eq_of_le (Nat.le_trans high bounded) with within | carried
  · exact ⟨_, round_within cut (by omega) (by omega) (Nat.le_trans full low) within,
      .inl ⟨rfl, rfl⟩⟩
  · exact ⟨_, round_carried cut (by omega) (by omega) carried, .inr ⟨carried, rfl, rfl⟩⟩

/-- An exact mantissa in 53 bits, or the power of two that it is rounded up to. -/
def nearest : Nat := (shortened (mantissa <<< (52 - mantissa.log2)) .exact).roundedMantissa

theorem round_eq_nearest (nonzero : mantissa ≠ 0) (least : -1022 ≤ mantissa.log2 + exponent)
    (most : mantissa.log2 + exponent ≤ 1022) :
    ∃ number : Normal, UnpackedFloat.round .binary64 .positive mantissa exponent = number.unpacked ∧
      number.Carries (nearest mantissa) (mantissa.log2 + exponent - 52) := by
  have count : (exponent - (mantissa.log2 + exponent - 52)).toNat = 52 - mantissa.log2 := by omega
  have width := log_shift nonzero (52 - mantissa.log2)
  have widened : UnpackedFloat.round .binary64 .positive mantissa exponent =
      roundWithAccuracy .binary64 .positive (mantissa <<< (52 - mantissa.log2))
        (exponent - (52 - mantissa.log2 : Nat)) .exact := by
    rw [UnpackedFloat.round, target_exponent mantissa exponent least, decreaseExponent, count]
  obtain ⟨number, rounded, carries⟩ := round_with_accuracy (mantissa <<< (52 - mantissa.log2))
    (exponent - (52 - mantissa.log2 : Nat)) .exact (by omega) (by omega) (by omega)
  have total : ((mantissa <<< (52 - mantissa.log2)).log2 : Int) +
      (exponent - (52 - mantissa.log2 : Nat)) - 52 = mantissa.log2 + exponent - 52 := by omega
  rw [total] at carries
  exact ⟨number, widened.trans rounded, carries⟩

theorem nearest_mono {left right : Nat} (nonzero : left ≠ 0) (order : left ≤ right)
    (same : left.log2 = right.log2) : nearest left ≤ nearest right := by
  have nonzeroRight : right ≠ 0 := by omega
  rw [nearest, nearest, shortened, shortened, log_shift nonzero, log_shift nonzeroRight, same]
  apply rounded_mono
  apply fourths_shift_mono
  rw [Nat.shiftLeft_eq, Nat.shiftLeft_eq]
  have widened := Nat.mul_le_mul_right (2 ^ (52 - right.log2)) order
  exact Nat.add_le_add_right (Nat.mul_le_mul_left 4 widened) _

end Round

end StylePurge.Double
