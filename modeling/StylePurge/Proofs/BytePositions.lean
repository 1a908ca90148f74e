import Mathlib.Data.List.Basic
import StylePurge.Proofs.TextEncoding
import StylePurge.Splitter.Bytes

/-!
Positions in a text that are counted in bytes. Behind a front of the text stands the first
byte of the next character, and only bytes of continuation stand further inside. An ASCII
character is known by its byte, and what stands between two fronts can be cut out.
-/

namespace StylePurge.Text

theorem encode_append (front behind : Text) :
    encode (front ++ behind) = encode front ++ encode behind := List.flatMap_append

section Character

/-- What the bytes of a character look like: the one byte of an ASCII character, or a
leading byte with bytes of continuation behind it. -/
inductive Encoded (character : Char) : Bytes → Prop where
  | narrow (ascii : character.toNat < 0x80) (size : character.utf8Size = 1) :
      Encoded character [byteOf character]
  | wide {leading : UInt8} {others : Bytes} (beyond : 0x80 ≤ character.toNat)
      (large : 0xC0 ≤ leading.toNat) (size : character.utf8Size = others.length + 1)
      (inside : ∀ byte ∈ others, isContinuation byte = true) :
      Encoded character (leading :: others)

theorem utf8_size_eq (character : Char) :
    character.utf8Size =
      if character.toNat < 0x80 then 1
      else if character.toNat < 0x800 then 2
      else if character.toNat < 0x10000 then 3
      else 4 := by
  have one : character.val ≤ 0x7F ↔ character.toNat < 0x80 := by
    rw [UInt32.le_iff_toNat_le]
    exact Nat.lt_succ_iff.symm
  have two : character.val ≤ 0x7FF ↔ character.toNat < 0x800 := by
    rw [UInt32.le_iff_toNat_le]
    exact Nat.lt_succ_iff.symm
  have three : character.val ≤ 0xFFFF ↔ character.toNat < 0x10000 := by
    rw [UInt32.le_iff_toNat_le]
    exact Nat.lt_succ_iff.symm
  simp only [← one, ← two, ← three]
  rfl

theorem encoded (character : Char) : Encoded character (encodeCharacter character) := by
  have size := utf8_size_eq character
  have bound : character.toNat < 0x110000 := by
    have valid : character.toNat < 0xD800 ∨
        0xDFFF < character.toNat ∧ character.toNat < 0x110000 := character.valid
    omega
  have large {value : Nat} (lower : 0xC0 ≤ value) (upper : value < 0x100) :
      0xC0 ≤ (UInt8.ofNat value).toNat := by
    rw [byte_to_nat upper]
    exact lower
  have continued (values : List Nat) :
      ∀ byte ∈ values.map continuation, isContinuation byte = true := by
    intro byte member
    obtain ⟨value, _, rfl⟩ := List.mem_map.1 member
    exact is_continuation_continuation value
  unfold encodeCharacter
  dsimp only
  split
  · rename_i one
    rw [if_pos one] at size
    exact .narrow one size
  rename_i beyond
  rw [if_neg beyond] at size
  split
  · rename_i two
    rw [if_pos two] at size
    exact .wide (by omega) (large (by omega) (by omega)) size (continued [character.toNat])
  rename_i longer
  rw [if_neg longer] at size
  split
  · rename_i three
    rw [if_pos three] at size
    exact .wide (by omega) (large (by omega) (by omega)) size
      (continued [character.toNat / 0x40, character.toNat])
  · rename_i longest
    rw [if_neg longest] at size
    exact .wide (by omega) (large (by omega) (by omega)) size
      (continued [character.toNat / 0x1000, character.toNat / 0x40, character.toNat])

theorem encode_character_length (character : Char) :
    (encodeCharacter character).length = character.utf8Size := by
  have shape := encoded character
  generalize encodeCharacter character = bytes at shape
  cases shape with
  | narrow ascii size => exact size.symm
  | wide beyond large size inside => exact size.symm

theorem encode_length (text : Text) : (encode text).length = byteSize text := by
  induction text with
  | nil => rfl
  | cons character rest induction =>
      change (encodeCharacter character ++ encode rest).length = _
      rw [List.length_append, encode_character_length, induction, byteSize]

/-- The byte that a character starts with. -/
def leadingByte (character : Char) : UInt8 := (encodeCharacter character).headD 0

theorem leading_byte_not_continuation (character : Char) :
    isContinuation (leadingByte character) = false := by
  unfold leadingByte
  have shape := encoded character
  generalize encodeCharacter character = bytes at shape
  rw [isContinuation, within, Bool.and_eq_false_iff]
  simp only [decide_eq_false_iff_not]
  cases shape with
  | narrow ascii size =>
      left
      rw [List.headD_cons, byteOf, byte_to_nat (by omega)]
      omega
  | wide beyond large size inside =>
      right
      rw [List.headD_cons]
      omega

/-- An ASCII character is told from every other by its byte. -/
theorem leading_byte_eq_iff {character mark : Char} (ascii : mark.toNat < 0x80) :
    leadingByte character = byteOf mark ↔ character = mark := by
  have value : (byteOf mark).toNat = mark.toNat := byte_to_nat (by omega)
  unfold leadingByte
  have shape := encoded character
  generalize encodeCharacter character = bytes at shape
  cases shape with
  | narrow narrow size =>
      have own : (byteOf character).toNat = character.toNat := byte_to_nat (by omega)
      rw [List.headD_cons, ← UInt8.toNat_inj, own, value, Char.toNat_inj]
  | wide beyond large size inside =>
      rw [List.headD_cons]
      constructor
      · rintro rfl
        omega
      · rintro rfl
        omega

theorem leading_byte_beq {character mark : Char} (ascii : mark.toNat < 0x80) :
    (leadingByte character == byteOf mark) = decide (character = mark) := by
  rw [Bool.eq_iff_iff, beq_iff_eq, decide_eq_true_iff]
  exact leading_byte_eq_iff ascii

theorem is_layout_leading_byte (character : Char) :
    isLayoutByte (leadingByte character) = isLayout character := by
  simp only [isLayoutByte, isLayout]
  rw [leading_byte_beq (by decide), leading_byte_beq (by decide), leading_byte_beq (by decide),
    leading_byte_beq (by decide), leading_byte_beq (by decide)]
  rfl

/-- No byte of continuation is the byte of an ASCII character. -/
theorem continuation_ne {byte : UInt8} {mark : Char} (ascii : mark.toNat < 0x80)
    (inside : isContinuation byte = true) : (byte == byteOf mark) = false := by
  rw [beq_eq_false_iff_ne]
  rintro rfl
  rw [isContinuation, within, Bool.and_eq_true, decide_eq_true_eq, byteOf,
    byte_to_nat (by omega)] at inside
  omega

end Character

section Positions

variable {front behind : Text} {character : Char}

/-- A character starts at the position, or the text ends there. -/
def Boundary (text : Text) (position : Nat) : Prop :=
  ∃ front behind, text = front ++ behind ∧ position = byteSize front

theorem byte_at_front (front behind : Text) :
    (encode (front ++ behind))[byteSize front]? = behind.head?.map leadingByte := by
  rw [encode_append, ← encode_length, List.getElem?_append_right (Nat.le_refl _), Nat.sub_self]
  cases behind with
  | nil => rfl
  | cons character rest =>
      change (encodeCharacter character ++ encode rest)[0]? = some (leadingByte character)
      unfold leadingByte
      have shape := encoded character
      generalize encodeCharacter character = bytes at shape
      cases shape with
      | narrow ascii size => rfl
      | wide beyond large size inside => rfl

theorem byte_inside {position : Nat} (above : byteSize front < position)
    (below : position < byteSize (front ++ [character])) :
    ∃ byte, (encode (front ++ character :: behind))[position]? = some byte ∧
      isContinuation byte = true := by
  obtain ⟨offset, rfl⟩ := Nat.exists_eq_add_of_lt above
  have inner : offset + 1 < (encodeCharacter character).length := by
    rw [encode_character_length]
    rw [byte_size_append, byteSize, byteSize] at below
    omega
  have here : (encode (front ++ character :: behind))[byteSize front + offset + 1]? =
      (encodeCharacter character)[offset + 1]? := by
    rw [encode_append, ← encode_length, Nat.add_assoc, List.getElem?_append_right (by omega),
      Nat.add_sub_cancel_left]
    change (encodeCharacter character ++ encode behind)[offset + 1]? = _
    rw [List.getElem?_append_left inner]
  rw [here]
  have shape := encoded character
  generalize encodeCharacter character = bytes at shape inner
  cases shape with
  | narrow ascii size =>
      rw [List.length_singleton] at inner
      omega
  | @wide leading others beyond large size inside =>
      have isInside : offset < others.length := by simpa using inner
      exact ⟨others[offset], by simp [isInside], inside _ (List.getElem_mem isInside)⟩

theorem is_boundary_of_boundary {text : Text} {position : Nat} (boundary : Boundary text position) :
    isBoundary (encode text) position = true := by
  obtain ⟨front, behind, rfl, rfl⟩ := boundary
  rw [isBoundary, byte_at_front]
  cases behind with
  | nil => simp [encode_length]
  | cons character rest => simp [leading_byte_not_continuation]

theorem slice_between (front inside behind : Text) :
    slice? (encode (front ++ inside ++ behind)) (byteSize front) (byteSize (front ++ inside)) =
      some inside := by
  have first : Boundary (front ++ inside ++ behind) (byteSize front) :=
    ⟨front, inside ++ behind, List.append_assoc .., rfl⟩
  have last : Boundary (front ++ inside ++ behind) (byteSize (front ++ inside)) :=
    ⟨front ++ inside, behind, rfl, rfl⟩
  have ordered : byteSize front ≤ byteSize (front ++ inside) := by
    rw [byte_size_append]
    exact Nat.le_add_right _ _
  have cut : ((encode (front ++ inside ++ behind)).take (byteSize (front ++ inside))).drop
      (byteSize front) = encode inside := by
    rw [encode_append, ← encode_length (front ++ inside), List.take_left, encode_append,
      ← encode_length, List.drop_left]
  rw [slice?, cut, decode_encode, is_boundary_of_boundary first, is_boundary_of_boundary last,
    decide_eq_true ordered]
  rfl

end Positions

end StylePurge.Text
