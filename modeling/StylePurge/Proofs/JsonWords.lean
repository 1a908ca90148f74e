import StylePurge.Json.Printer
import StylePurge.Json.Token

/-!
A printed document falls into its words again. Every character of a string literal
is read back from its escaped form, a number ends where something stands that no number
holds, and blank space between words does not matter.
-/

namespace StylePurge.Json

section Literals

variable {character : Char} {rest behind : Text} {pieces : List Piece}

theorem read_unicode_escape {unit : Nat} {first second third fourth : Char}
    (digits : Text.toNat? 16 [first, second, third, fourth] = some unit)
    (later : readPieces rest = some (pieces, behind)) :
    readPieces ('\\' :: 'u' :: first :: second :: third :: fourth :: rest) =
      some (pieceOfUnit unit :: pieces, behind) := by
  rw [readPieces, digits, later]

theorem read_short_escape {letter : Char} (known : escaped? letter = some character)
    (later : readPieces rest = some (pieces, behind)) :
    readPieces ('\\' :: letter :: rest) = some (.character character :: pieces, behind) := by
  have noUnicode : letter ≠ 'u' := by
    rintro rfl
    exact nomatch known
  rw [readPieces, known, later]
  intro first second third fourth others same
  exact absurd same noUnicode

theorem read_plain_character (noQuote : character ≠ '"') (noBackslash : character ≠ '\\')
    (printable : ¬character < ' ') (later : readPieces rest = some (pieces, behind)) :
    readPieces (character :: rest) = some (.character character :: pieces, behind) := by
  rw [readPieces.eq_def]
  split
  · contradiction
  · simp_all
  · simp_all
  · simp_all
  · simp_all

/-- A control character is written as its code in four digits. -/
theorem control_digits {code : Nat} (control : code < 0x20) :
    Text.toNat? 16 ['0', '0', hexDigit (code / 16), hexDigit (code % 16)] = some code ∧
      pieceOfUnit code = .character (Char.ofNat code) := by
  have all : ∀ code < 0x20,
      Text.toNat? 16 ['0', '0', hexDigit (code / 16), hexDigit (code % 16)] = some code ∧
        pieceOfUnit code = .character (Char.ofNat code) := by
    decide
  exact all code control

theorem read_escape (later : readPieces rest = some (pieces, behind)) :
    readPieces (escape character ++ rest) = some (.character character :: pieces, behind) := by
  unfold escape
  split
  · exact read_short_escape rfl later
  · exact read_short_escape rfl later
  · exact read_short_escape rfl later
  · exact read_short_escape rfl later
  · exact read_short_escape rfl later
  · exact read_short_escape rfl later
  · exact read_short_escape rfl later
  · rename_i noQuote noBackslash _ _ _ _ _
    split
    · rename_i control
      have code : character.toNat < 0x20 := by
        simpa [Char.lt_def, UInt32.lt_iff_toNat_lt] using control
      obtain ⟨digits, piece⟩ := control_digits code
      rw [Char.ofNat_toNat] at piece
      rw [← piece]
      exact read_unicode_escape digits later
    · rename_i printable
      exact read_plain_character noQuote noBackslash printable later

theorem read_escaped (text rest : Text) :
    readPieces (text.flatMap escape ++ '"' :: rest) = some (text.map Piece.character, rest) := by
  induction text with
  | nil => rfl
  | cons character others induction =>
      rw [List.flatMap_cons, List.append_assoc]
      exact read_escape induction

theorem assemble_characters (text : Text) : assemble (text.map Piece.character) = some text := by
  induction text with
  | nil => rfl
  | cons character others induction =>
      rw [List.map_cons, assemble, induction]
      rfl

end Literals

section Words

variable {character : Char} {text rest behind : Text} {token : Token} {words : List Token}

theorem words_of_space (space : isSpace character = true) (rest : Text) :
    tokens? (character :: rest) = tokens? rest := by
  rw [tokens?, if_pos space]

theorem words_of_token (word : isSpace character = false)
    (found : nextToken? character rest = some (token, behind)) :
    tokens? (character :: rest) = (tokens? behind).map (token :: ·) := by
  rw [tokens?, if_neg (by simp [word])]
  split
  · rename_i token' behind' here
    rw [found, Option.some.injEq, Prod.mk.injEq] at here
    rw [here.1, here.2]
  · rename_i missing
    simp [found] at missing

theorem words_of_punctuation (known : punctuation? character = some token) (rest : Text) :
    tokens? (character :: rest) = (tokens? rest).map (token :: ·) := by
  have word : isSpace character = false := by
    rw [Bool.eq_false_iff]
    intro space
    simp only [isSpace, Bool.or_eq_true, beq_iff_eq] at space
    rcases space with ((rfl | rfl) | rfl) | rfl <;> exact nomatch known
  apply words_of_token word
  rw [nextToken?, known]

theorem words_of_literal (literal : Literal) (rest : Text) :
    tokens? (literalText literal ++ rest) =
      (tokens? rest).map (.scalar (.string literal) :: ·) := by
  cases literal with
  | none =>
      apply words_of_token rfl
      rfl
  | some text =>
      rw [literalText, quote, List.append_assoc, List.append_assoc]
      apply words_of_token rfl
      rw [nextToken?]
      simp [punctuation?, read_escaped, assemble_characters]

/-- A bare word in front of a text does not run on into it. -/
def Apart (text : Text) : Prop := ∀ character ∈ text.head?, isBareCharacter character = false

theorem apart_cons (bare : isBareCharacter character = false) : Apart (character :: rest) := by
  intro first here
  simp only [List.head?_cons, Option.mem_some_iff] at here
  rw [← here, bare]

theorem bare_character (bare : isBareCharacter character = true) :
    isSpace character = false ∧ character ≠ '"' ∧ punctuation? character = none := by
  refine ⟨?_, ?_, ?_⟩
  · rw [Bool.eq_false_iff]
    intro space
    simp only [isSpace, Bool.or_eq_true, beq_iff_eq] at space
    rcases space with ((rfl | rfl) | rfl) | rfl <;> exact nomatch bare
  · rintro rfl
    exact nomatch bare
  · unfold punctuation?
    split
    case h_7 => rfl
    all_goals exact nomatch bare

/-- A word of bare characters is read as a whole where it stands apart. -/
theorem words_of_bare {word : Text} {atom : Scalar}
    (bare : ∀ character ∈ word, isBareCharacter character = true) (known : bare? word = some atom)
    (apart : Apart rest) :
    tokens? (word ++ rest) = (tokens? rest).map (.scalar atom :: ·) := by
  cases word with
  | nil => exact nomatch known
  | cons character others =>
      obtain ⟨noSpace, noQuote, noPunctuation⟩ := bare_character (bare character List.mem_cons_self)
      have later : ∀ other ∈ others, isBareCharacter other = true := by
        intro other member
        exact bare other (List.mem_cons_of_mem character member)
      -- The rest starts with no bare character, so the reader takes the word and no more.
      have taken : rest.takeWhile isBareCharacter = [] := by
        cases rest with
        | nil => rfl
        | cons first behind => simp [apart first rfl]
      have dropped : rest.dropWhile isBareCharacter = rest := by
        cases rest with
        | nil => rfl
        | cons first behind => simp [apart first rfl]
      rw [List.cons_append]
      apply words_of_token noSpace
      rw [nextToken?, noPunctuation]
      dsimp only
      rw [if_neg noQuote, List.takeWhile_append_of_pos later, List.dropWhile_append_of_pos later,
        taken, dropped, List.append_nil, known]
      rfl

end Words

section Numbers

/-- All characters of the text may stand in a bare word. -/
def Bare (text : Text) : Prop := ∀ character ∈ text, isBareCharacter character = true

variable {character : Char} {text rest : Text}

theorem bare_cons (here : isBareCharacter character = true) (later : Bare rest) :
    Bare (character :: rest) := by
  intro other member
  rcases List.mem_cons.1 member with rfl | inRest
  · exact here
  · exact later other inRest

theorem bare_of_digit (digit : Text.isDigit character = true) :
    isBareCharacter character = true := by
  have same : character.isDigit = true := digit
  simp [isBareCharacter, Char.isAlphanum, same]

theorem bare_of_digits (digits : isDigits text = true) : Bare text := by
  intro character member
  simp only [isDigits, Bool.and_eq_true, List.all_eq_true] at digits
  exact bare_of_digit (digits.2 character member)

theorem bare_behind_digits (later : Bare (text.dropWhile Text.isDigit)) : Bare text := by
  intro character member
  rw [← List.takeWhile_append_dropWhile (p := Text.isDigit) (l := text), List.mem_append] at member
  rcases member with digit | behind
  · exact bare_of_digit (List.all_eq_true.1 List.all_takeWhile character digit)
  · exact later character behind

theorem bare_of_exponent (exponent : isExponent text = true) : Bare text := by
  cases text with
  | nil => exact fun _ member => absurd member List.not_mem_nil
  | cons mark rest =>
      simp only [isExponent, Bool.and_eq_true, Bool.or_eq_true, beq_iff_eq] at exponent
      obtain ⟨letter, digits⟩ := exponent
      have later : Bare rest := by
        split at digits
        · exact bare_cons rfl (bare_of_digits digits)
        · exact bare_cons rfl (bare_of_digits digits)
        · exact bare_of_digits digits
      rcases letter with rfl | rfl
      · exact bare_cons rfl later
      · exact bare_cons rfl later

theorem bare_of_fraction (fraction : isFraction text = true) : Bare text := by
  unfold isFraction at fraction
  split at fraction
  · rw [Bool.and_eq_true] at fraction
    exact bare_cons rfl (bare_behind_digits (bare_of_exponent fraction.2))
  · exact bare_of_exponent fraction

theorem bare_of_unsigned (unsigned : isUnsigned text = true) : Bare text := by
  unfold isUnsigned at unsigned
  split at unsigned
  · exact bare_cons rfl (bare_of_fraction unsigned)
  · rw [Bool.and_eq_true] at unsigned
    exact bare_cons (bare_of_digit unsigned.1) (bare_behind_digits (bare_of_fraction unsigned.2))
  · exact nomatch unsigned

theorem bare_of_number (number : isNumber text = true) : Bare text := by
  unfold isNumber at number
  split at number
  · exact bare_cons rfl (bare_of_unsigned number)
  · exact bare_of_unsigned number

/-- No number is one of the three names. -/
theorem bare_number (number : isNumber text = true) : bare? text = some (.number text) := by
  have noNull : text ≠ ['n', 'u', 'l', 'l'] := by
    rintro rfl
    exact nomatch number
  have noTrue : text ≠ ['t', 'r', 'u', 'e'] := by
    rintro rfl
    exact nomatch number
  have noFalse : text ≠ ['f', 'a', 'l', 's', 'e'] := by
    rintro rfl
    exact nomatch number
  rw [bare?, if_neg noNull, if_neg noTrue, if_neg noFalse, if_pos number]

end Numbers

/-- Numbers are written so that they read as numbers. -/
def Scalar.WellFormed : Scalar → Prop
  | .number digits => isNumber digits = true
  | _ => True

theorem words_of_scalar {atom : Scalar} {rest : Text} (wellFormed : atom.WellFormed)
    (apart : Apart rest) :
    tokens? (scalarText atom ++ rest) = (tokens? rest).map (.scalar atom :: ·) := by
  have name (word : Text) (bare : word.all isBareCharacter = true)
      (known : bare? word = some atom) :
      tokens? (word ++ rest) = (tokens? rest).map (.scalar atom :: ·) :=
    words_of_bare (List.all_eq_true.1 bare) known apart
  cases atom with
  | null => exact name ['n', 'u', 'l', 'l'] rfl rfl
  | bool value =>
      cases value with
      | false => exact name ['f', 'a', 'l', 's', 'e'] rfl rfl
      | true => exact name ['t', 'r', 'u', 'e'] rfl rfl
  | number digits => exact words_of_bare (bare_of_number wellFormed) (bare_number wellFormed) apart
  | string literal => exact words_of_literal literal rest

end StylePurge.Json
