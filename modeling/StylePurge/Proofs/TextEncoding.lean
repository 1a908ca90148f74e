import StylePurge.Text.Utf8

/-!
Text survives being written as bytes. The first byte of a character tells how many
bytes follow it and how far the second one may reach. The bounds leave out what no
character is written as: forms longer than needed, halves of surrogate pairs, and
codes beyond the last one.
-/

namespace StylePurge.Text

theorem byte_to_nat {value : Nat} (small : value < 256) : (UInt8.ofNat value).toNat = value := by
  rw [UInt8.toNat_ofNat']
  exact Nat.mod_eq_of_lt small

theorem continuation_to_nat (value : Nat) :
    (continuation value).toNat = 0x80 + value % 0x40 := by
  apply byte_to_nat
  omega

theorem payload_continuation (value : Nat) : payload (continuation value) = value % 0x40 := by
  rw [payload, continuation_to_nat]
  omega

theorem within_continuation {low high value : Nat} :
    within low high (continuation value) = true ↔
      low ≤ 0x80 + value % 0x40 ∧ 0x80 + value % 0x40 ≤ high := by
  simp only [within, continuation_to_nat, Bool.and_eq_true, decide_eq_true_eq]

theorem is_continuation_continuation (value : Nat) :
    isContinuation (continuation value) = true := by
  rw [isContinuation, within_continuation]
  omega

theorem sequence_bounds_two {value : Nat} (lower : 0x80 ≤ value) (upper : value < 0x800) :
    sequenceBounds? (0xC0 + value / 0x40) = some (2, 0x80, 0xBF) := by
  have first : (decide (0xC2 ≤ 0xC0 + value / 0x40) &&
      decide (0xC0 + value / 0x40 ≤ 0xDF)) = true := by
    simp only [Bool.and_eq_true, decide_eq_true_eq]
    omega
  rw [sequenceBounds?, if_pos first]

/-- Two of the first bytes of a character of three bytes narrow the second byte. -/
theorem sequence_bounds_three {value : Nat} (lower : 0x800 ≤ value) (upper : value < 0x10000)
    (valid : value < 0xD800 ∨ 0xDFFF < value) :
    ∃ low high, sequenceBounds? (0xE0 + value / 0x1000) = some (3, low, high) ∧
      within low high (continuation (value / 0x40)) = true := by
  simp only [within_continuation]
  unfold sequenceBounds?
  simp only [Bool.and_eq_true, decide_eq_true_eq]
  rw [if_neg (by omega)]
  by_cases shortest : 0xE0 + value / 0x1000 = 0xE0
  · rw [if_pos shortest]
    refine ⟨_, _, rfl, ?_⟩
    omega
  rw [if_neg shortest]
  by_cases surrogate : 0xE0 + value / 0x1000 = 0xED
  · rw [if_pos surrogate]
    refine ⟨_, _, rfl, ?_⟩
    omega
  rw [if_neg surrogate, if_pos (by omega)]
  refine ⟨_, _, rfl, ?_⟩
  omega

theorem sequence_bounds_four {value : Nat} (lower : 0x10000 ≤ value) (upper : value < 0x110000) :
    ∃ low high, sequenceBounds? (0xF0 + value / 0x40000) = some (4, low, high) ∧
      within low high (continuation (value / 0x1000)) = true := by
  simp only [within_continuation]
  unfold sequenceBounds?
  simp only [Bool.and_eq_true, decide_eq_true_eq]
  rw [if_neg (by omega), if_neg (by omega), if_neg (by omega), if_neg (by omega)]
  by_cases shortest : 0xF0 + value / 0x40000 = 0xF0
  · rw [if_pos shortest]
    refine ⟨_, _, rfl, ?_⟩
    omega
  rw [if_neg shortest]
  by_cases middle : 0xF1 ≤ 0xF0 + value / 0x40000 ∧ 0xF0 + value / 0x40000 ≤ 0xF3
  · rw [if_pos middle]
    refine ⟨_, _, rfl, ?_⟩
    omega
  rw [if_neg middle, if_pos (by omega)]
  refine ⟨_, _, rfl, ?_⟩
  omega

section Decode

variable {value : Nat} (index : Nat) (rest : Bytes)

theorem decode_from_one (small : value < 0x80) :
    decodeFrom index (UInt8.ofNat value :: rest) =
      (decodeFrom (index + 1) rest).map (Char.ofNat value :: ·) := by
  have first : (UInt8.ofNat value).toNat = value := byte_to_nat (by omega)
  rw [decodeFrom, first, if_pos small]

theorem decode_from_two (lower : 0x80 ≤ value) (upper : value < 0x800) :
    decodeFrom index (UInt8.ofNat (0xC0 + value / 0x40) :: continuation value :: rest) =
      (decodeFrom (index + 2) rest).map (Char.ofNat value :: ·) := by
  have first : (UInt8.ofNat (0xC0 + value / 0x40)).toNat = 0xC0 + value / 0x40 :=
    byte_to_nat (by omega)
  have code : (0xC0 + value / 0x40) % 0x20 * 0x40 + value % 0x40 = value := by omega
  have allowed : within 0x80 0xBF (continuation value) = true := is_continuation_continuation value
  rw [decodeFrom, first, if_neg (by omega), sequence_bounds_two lower upper]
  simp [allowed, payload_continuation, code]

theorem decode_from_three (lower : 0x800 ≤ value) (upper : value < 0x10000)
    (valid : value < 0xD800 ∨ 0xDFFF < value) :
    decodeFrom index (UInt8.ofNat (0xE0 + value / 0x1000) :: continuation (value / 0x40) ::
        continuation value :: rest) =
      (decodeFrom (index + 3) rest).map (Char.ofNat value :: ·) := by
  have first : (UInt8.ofNat (0xE0 + value / 0x1000)).toNat = 0xE0 + value / 0x1000 :=
    byte_to_nat (by omega)
  have code : (0xE0 + value / 0x1000) % 0x10 * 0x1000 + value / 0x40 % 0x40 * 0x40 +
      value % 0x40 = value := by omega
  obtain ⟨low, high, known, allowed⟩ := sequence_bounds_three lower upper valid
  rw [decodeFrom, first, if_neg (by omega), known]
  simp [allowed, is_continuation_continuation, payload_continuation, code]

theorem decode_from_four (lower : 0x10000 ≤ value) (upper : value < 0x110000) :
    decodeFrom index (UInt8.ofNat (0xF0 + value / 0x40000) :: continuation (value / 0x1000) ::
        continuation (value / 0x40) :: continuation value :: rest) =
      (decodeFrom (index + 4) rest).map (Char.ofNat value :: ·) := by
  have first : (UInt8.ofNat (0xF0 + value / 0x40000)).toNat = 0xF0 + value / 0x40000 :=
    byte_to_nat (by omega)
  have code : (0xF0 + value / 0x40000) % 0x8 * 0x40000 + value / 0x1000 % 0x40 * 0x1000 +
      value / 0x40 % 0x40 * 0x40 + value % 0x40 = value := by omega
  obtain ⟨low, high, known, allowed⟩ := sequence_bounds_four lower upper
  rw [decodeFrom, first, if_neg (by omega), known]
  simp [allowed, is_continuation_continuation, payload_continuation, code]

end Decode

theorem decode_from_encode_character (index : Nat) (character : Char) (rest : Bytes) :
    ∃ next, decodeFrom index (encodeCharacter character ++ rest) =
      (decodeFrom next rest).map (character :: ·) := by
  have bounds : character.toNat < 0xD800 ∨ 0xDFFF < character.toNat ∧ character.toNat < 0x110000 :=
    character.valid
  have restored : Char.ofNat character.toNat = character := Char.ofNat_toNat character
  unfold encodeCharacter
  dsimp only
  split
  · rename_i one
    exact ⟨index + 1, (decode_from_one index rest one).trans (by rw [restored])⟩
  split
  · rename_i two
    exact ⟨index + 2, (decode_from_two index rest (by omega) two).trans (by rw [restored])⟩
  split
  · rename_i three
    exact ⟨index + 3,
      (decode_from_three index rest (by omega) three (by omega)).trans (by rw [restored])⟩
  · exact ⟨index + 4,
      (decode_from_four index rest (by omega) (by omega)).trans (by rw [restored])⟩

theorem decode_from_encode (index : Nat) (text : Text) :
    decodeFrom index (encode text) = .ok text := by
  induction text generalizing index with
  | nil => rfl
  | cons character rest induction =>
      obtain ⟨next, onward⟩ := decode_from_encode_character index character (encode rest)
      change decodeFrom index (encodeCharacter character ++ encode rest) = .ok (character :: rest)
      rw [onward, induction]
      simp [Except.map]

theorem decode_encode (text : Text) : decode (encode text) = .ok text := decode_from_encode 0 text

end StylePurge.Text
