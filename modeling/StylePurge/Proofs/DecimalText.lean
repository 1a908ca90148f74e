import Mathlib.Data.List.TakeWhile
import StylePurge.Proofs.JsonWords

/-!
Numbers in decimal. A number is read back from its digits, zeros in front do not matter, and
the digits alone are a number of a document.
-/

namespace StylePurge.Text

theorem read_digits_append (base value : Nat) (first second : Text) :
    readDigits base value (first ++ second) =
      (readDigits base value first).bind fun reached => readDigits base reached second := by
  induction first generalizing value with
  | nil => rfl
  | cons character rest induction =>
      rw [List.cons_append, readDigits, readDigits]
      cases digitValue? character with
      | none => rfl
      | some digit =>
          by_cases small : digit < base
          · simp only [if_pos small, induction]
          · simp only [if_neg small, Option.bind_none]

theorem digit_char {value : Nat} (small : value < 10) :
    isDigit (Nat.digitChar value) = true ∧ digitValue? (Nat.digitChar value) = some value ∧
      (Nat.digitChar value = '0' → value = 0) := by
  have all : ∀ value < 10, isDigit (Nat.digitChar value) = true ∧
      digitValue? (Nat.digitChar value) = some value ∧
      (Nat.digitChar value = '0' → value = 0) := by
    decide
  exact all value small

theorem of_nat_small {number : Nat} (small : number < 10) :
    ofNat number = [Nat.digitChar number] :=
  Nat.toDigits_of_lt_base small

theorem of_nat_large {number : Nat} (large : 10 ≤ number) :
    ofNat number = ofNat (number / 10) ++ [Nat.digitChar (number % 10)] :=
  Nat.toDigits_of_base_le (by decide) large

theorem of_nat_ne_nil (number : Nat) : ofNat number ≠ [] := Nat.toDigits_ne_nil

/-- A number is made by writing it without its last digit first. -/
theorem of_nat_induction {holds : Nat → Prop} (small : ∀ number < 10, holds number)
    (large : ∀ number, 10 ≤ number → holds (number / 10) → holds number) (number : Nat) :
    holds number := by
  induction number using Nat.strongRecOn with
  | ind number induction =>
      rcases Nat.lt_or_ge number 10 with few | many
      · exact small number few
      · exact large number many (induction (number / 10) (by omega))

theorem read_digits_of_nat (number : Nat) : readDigits 10 0 (ofNat number) = some number := by
  induction number using of_nat_induction with
  | small number small =>
      obtain ⟨_, value, _⟩ := digit_char small
      simp [of_nat_small small, readDigits, value, small]
  | large number large induction =>
      have last : number % 10 < 10 := Nat.mod_lt number (by decide)
      obtain ⟨_, value, _⟩ := digit_char last
      rw [of_nat_large large, read_digits_append, induction]
      simp only [Option.bind_some, readDigits, value, if_pos last, Option.some.injEq]
      omega

theorem read_digits_zeros (zeros : Nat) (text : Text) :
    readDigits 10 0 (List.replicate zeros '0' ++ text) = readDigits 10 0 text := by
  induction zeros with
  | zero => rfl
  | succ zeros induction => exact induction

/-- Zeros may stand in front of a number. -/
theorem to_nat_zeros_of_nat (zeros number : Nat) :
    toNat? 10 (List.replicate zeros '0' ++ ofNat number) = some number := by
  have some : (List.replicate zeros '0' ++ ofNat number).isEmpty = false := by
    rw [List.isEmpty_eq_false_iff]
    exact fun nothing => of_nat_ne_nil number (List.append_eq_nil_iff.1 nothing).2
  rw [toNat?, some]
  exact (read_digits_zeros zeros (ofNat number)).trans (read_digits_of_nat number)

theorem to_nat_of_nat (number : Nat) : toNat? 10 (ofNat number) = some number :=
  to_nat_zeros_of_nat 0 number

theorem digits_of_nat (number : Nat) : ∀ character ∈ ofNat number, isDigit character = true := by
  induction number using of_nat_induction with
  | small number small =>
      rw [of_nat_small small]
      exact List.forall_mem_singleton.2 (digit_char small).1
  | large number large induction =>
      rw [of_nat_large large]
      intro character member
      rcases List.mem_append.1 member with front | last
      · exact induction character front
      · obtain rfl := List.mem_singleton.1 last
        exact (digit_char (Nat.mod_lt number (by decide))).1

/-- Only the number zero begins with a zero. -/
theorem of_nat_start (number : Nat) :
    ∃ first rest, ofNat number = first :: rest ∧ (first = '0' → number = 0) := by
  induction number using of_nat_induction with
  | small number small => exact ⟨_, [], of_nat_small small, (digit_char small).2.2⟩
  | large number large induction =>
      obtain ⟨first, rest, start, leading⟩ := induction
      refine ⟨first, rest ++ [Nat.digitChar (number % 10)], ?_, fun zero => ?_⟩
      · rw [of_nat_large large, start, List.cons_append]
      · have few := leading zero
        omega

theorem is_number_of_nat (number : Nat) : Json.isNumber (ofNat number) = true := by
  rcases Nat.eq_zero_or_pos number with rfl | positive
  · rfl
  · obtain ⟨first, rest, start, leading⟩ := of_nat_start number
    have digits := digits_of_nat number
    rw [start] at digits ⊢
    have digit : isDigit first = true := digits first List.mem_cons_self
    have noZero : first ≠ '0' := fun zero => absurd (leading zero) (by omega)
    have noSign : first ≠ '-' := by
      rintro rfl
      exact absurd digit (by decide)
    have behind : rest.dropWhile isDigit = [] :=
      List.dropWhile_eq_nil_iff.2 fun character member =>
        digits character (List.mem_cons_of_mem first member)
    rw [Json.isNumber, Json.isUnsigned, digit, behind]
    · rfl
    · exact noZero
    · exact fun _ same => noSign (List.cons_eq_cons.1 same).1

end StylePurge.Text
