import StylePurge.Proofs.JsonRoundTrip

/-!
The written forms of an array of strings. A character stands for itself, is escaped with a
letter or with its code in four digits, or is written as two halves of a surrogate pair, and
blank space may stand between words. Every form is read as the same strings, and both
layouts of the printer are such forms.
-/

namespace StylePurge.Json

section Characters

/-- A hexadecimal digit, small or capital. -/
inductive HexDigit : Nat → Char → Prop where
  | small {value : Nat} (bound : value < 16) : HexDigit value (Nat.digitChar value)
  | capital {value : Nat} (bound : value < 16) : HexDigit value (Nat.digitChar value).toUpper

/-- Four hexadecimal digits and the number they stand for. -/
inductive WritesUnit : Nat → Text → Prop where
  | digits {a b c d : Nat} {first second third fourth : Char} (one : HexDigit a first)
      (two : HexDigit b second) (three : HexDigit c third) (four : HexDigit d fourth) :
      WritesUnit (((a * 16 + b) * 16 + c) * 16 + d) [first, second, third, fourth]

/-- The escapes of one letter. -/
def letterEscapes : List (Char × Char) :=
  [('"', '"'), ('\\', '\\'), ('/', '/'), ('b', '\x08'), ('f', '\x0c'), ('n', '\n'), ('r', '\r'),
    ('t', '\t')]

inductive Writes (character : Char) : Text → Prop where
  | plain (noQuote : character ≠ '"') (noBackslash : character ≠ '\\')
      (printable : 0x20 ≤ character.toNat) : Writes character [character]
  | letter {letter : Char} (known : (letter, character) ∈ letterEscapes) :
      Writes character ['\\', letter]
  | unit {digits : Text} (code : WritesUnit character.toNat digits) :
      Writes character ('\\' :: 'u' :: digits)
  | pair {high low : Nat} {first second : Text} (highDigits : WritesUnit high first)
      (lowDigits : WritesUnit low second) (highHalf : 0xD800 ≤ high ∧ high ≤ 0xDBFF)
      (lowHalf : 0xDC00 ≤ low ∧ low ≤ 0xDFFF)
      (code : character.toNat = 0x10000 + (high - 0xD800) * 0x400 + (low - 0xDC00)) :
      Writes character ('\\' :: 'u' :: first ++ '\\' :: 'u' :: second)

variable {character : Char} {unit : Nat} {written rest behind : Text} {pieces : List Piece}

theorem hex_digit_value {value : Nat} (digit : HexDigit value character) :
    Text.digitValue? character = some value ∧ value < 16 := by
  have both : ∀ value < 16, Text.digitValue? (Nat.digitChar value) = some value ∧
      Text.digitValue? (Nat.digitChar value).toUpper = some value := by
    decide
  cases digit with
  | small bound => exact ⟨(both value bound).1, bound⟩
  | capital bound => exact ⟨(both value bound).2, bound⟩

theorem read_unit (digits : WritesUnit unit written)
    (later : readPieces rest = some (pieces, behind)) :
    readPieces ('\\' :: 'u' :: (written ++ rest)) = some (pieceOfUnit unit :: pieces, behind) := by
  cases digits with
  | digits one two three four =>
      obtain ⟨one, oneBound⟩ := hex_digit_value one
      obtain ⟨two, twoBound⟩ := hex_digit_value two
      obtain ⟨three, threeBound⟩ := hex_digit_value three
      obtain ⟨four, fourBound⟩ := hex_digit_value four
      apply read_unicode_escape _ later
      simp [Text.toNat?, Text.readDigits, one, oneBound, two, twoBound, three, threeBound, four,
        fourBound]

theorem piece_of_code (character : Char) :
    pieceOfUnit character.toNat = .character character := by
  have valid : character.toNat < 0xD800 ∨
      0xDFFF < character.toNat ∧ character.toNat < 0x110000 := character.valid
  have noHalf : (isHighSurrogate character.toNat || isLowSurrogate character.toNat) = false := by
    simp only [isHighSurrogate, isLowSurrogate, Bool.or_eq_false_iff, Bool.and_eq_false_iff,
      decide_eq_false_iff_not]
    omega
  rw [pieceOfUnit, noHalf, Char.ofNat_toNat]
  rfl

/-- A character is read from any of its written forms. A pair is read as two pieces, which
are put together afterwards. -/
theorem read_written (writes : Writes character written)
    (later : readPieces rest = some (pieces, behind)) :
    ∃ more, readPieces (written ++ rest) = some (more ++ pieces, behind) ∧
      ∀ others, assemble (more ++ others) = (assemble others).map (character :: ·) := by
  cases writes with
  | plain noQuote noBackslash printable =>
      refine ⟨[.character character], ?_, fun others => rfl⟩
      apply read_plain_character noQuote noBackslash _ later
      rw [Char.lt_def, UInt32.lt_iff_toNat_lt]
      exact Nat.not_lt.2 printable
  | @letter letter known =>
      have escape : escaped? letter = some character := by
        have all : ∀ pair ∈ letterEscapes, escaped? pair.1 = some pair.2 := by decide
        exact all _ known
      exact ⟨[.character character], read_short_escape escape later, fun others => rfl⟩
  | unit code =>
      refine ⟨[pieceOfUnit character.toNat], read_unit code later, fun others => ?_⟩
      rw [piece_of_code]
      rfl
  | @pair high low first second highDigits lowDigits highHalf lowHalf code =>
      have isHigh : isHighSurrogate high = true := by simpa [isHighSurrogate] using highHalf
      have isLow : isLowSurrogate low = true := by simpa [isLowSurrogate] using lowHalf
      have joined : joinSurrogates high low = character := by
        rw [joinSurrogates, ← code, Char.ofNat_toNat]
      refine ⟨[.surrogate high, .surrogate low], ?_, fun others => ?_⟩
      · have read := read_unit highDigits (read_unit lowDigits later)
        simpa [pieceOfUnit, isHigh, isLow] using read
      · simp [assemble, isHigh, isLow, joined]

end Characters

section Texts

/-- Any written form of a text between quotes. -/
inductive WritesText : Text → Text → Prop where
  | nil : WritesText [] []
  | cons {character : Char} {text written rest : Text} (first : Writes character written)
      (later : WritesText text rest) : WritesText (character :: text) (written ++ rest)

def Blank (spaces : Text) : Prop := ∀ character ∈ spaces, isSpace character = true

theorem blank_nil : Blank [] := fun _ member => absurd member List.not_mem_nil

/-- Strings with commas between them. -/
inductive WritesItems : List Text → Text → Prop where
  | last {text before written after : Text} (front : Blank before)
      (string : WritesText text written) (back : Blank after) :
      WritesItems [text] (before ++ '"' :: (written ++ '"' :: after))
  | more {text before written after rest : Text} {texts : List Text} (front : Blank before)
      (string : WritesText text written) (back : Blank after) (later : WritesItems texts rest) :
      WritesItems (text :: texts) (before ++ '"' :: (written ++ '"' :: (after ++ ',' :: rest)))

inductive WritesArray : List Text → Text → Prop where
  | empty {before inside after : Text} (front : Blank before) (middle : Blank inside)
      (back : Blank after) : WritesArray [] (before ++ '[' :: (inside ++ ']' :: after))
  | items {texts : List Text} {before inside after : Text} (front : Blank before)
      (items : WritesItems texts inside) (back : Blank after) :
      WritesArray texts (before ++ '[' :: (inside ++ ']' :: after))

variable {text written spaces content : Text} {texts : List Text} {words : List Token}

theorem read_written_text (writes : WritesText text written) (rest : Text) :
    ∃ pieces, readPieces (written ++ '"' :: rest) = some (pieces, rest) ∧
      assemble pieces = some text := by
  induction writes with
  | nil => exact ⟨[], rfl, rfl⟩
  | cons first later induction =>
      obtain ⟨pieces, read, assembled⟩ := induction
      obtain ⟨more, readFirst, joined⟩ := read_written first read
      refine ⟨more ++ pieces, ?_, ?_⟩
      · rw [List.append_assoc, readFirst]
      · rw [joined, assembled]
        rfl

theorem spells_blank (blank : Blank spaces) (spells : Spells text words) :
    Spells (spaces ++ text) words := by
  induction spaces with
  | nil => exact spells
  | cons character rest induction =>
      apply spells_space (blank character List.mem_cons_self)
      exact induction fun other member => blank other (List.mem_cons_of_mem character member)

theorem spells_string {tail : Text} (string : WritesText text written)
    (spells : Spells tail words) :
    Spells ('"' :: (written ++ '"' :: tail)) (.scalar (.string (some text)) :: words) := by
  intro rest apart
  obtain ⟨pieces, read, assembled⟩ := read_written_text string (tail ++ rest)
  have found : nextToken? '"' (written ++ '"' :: (tail ++ rest)) =
      some (.scalar (.string (some text)), tail ++ rest) := by
    simp [nextToken?, punctuation?, read, assembled]
  have shape : '"' :: (written ++ '"' :: tail) ++ rest =
      '"' :: (written ++ '"' :: (tail ++ rest)) := by simp
  rw [shape, words_of_token rfl found, spells rest apart, Option.map_map]
  rfl

theorem spells_items {tail : Text} (items : WritesItems texts written)
    (spells : Spells tail words) :
    Spells (written ++ tail) (itemWords (texts.map ofText) ++ words) := by
  induction items with
  | last front string back =>
      have here := spells_blank front (spells_string string (spells_blank back spells))
      simpa [itemWords, ofText, Json.words] using here
  | @more text before written after rest texts front string back later induction =>
      have behind : Spells (after ++ ',' :: (rest ++ tail))
          (.comma :: (itemWords (texts.map ofText) ++ words)) :=
        spells_blank back (spells_punctuation rfl induction)
      have here := spells_blank front (spells_string string behind)
      cases later with
      | last => simpa [itemWords, ofText, Json.words] using here
      | more => simpa [itemWords, ofText, Json.words] using here

/-- An array of strings is read from any of its written forms. -/
theorem read_array (writes : WritesArray texts content) :
    read? content = some (ofTexts texts) := by
  have closing {after : Text} (back : Blank after) : Spells (']' :: after) [.closeArray] := by
    apply spells_punctuation rfl
    simpa using spells_blank back spells_nil
  have opening {front inside : Text} {words : List Token} (blank : Blank front)
      (spells : Spells inside words) : Spells (front ++ '[' :: inside) (.openArray :: words) :=
    spells_blank blank (spells_punctuation rfl spells)
  have spells : Spells content (ofTexts texts).words := by
    cases writes with
    | empty front middle back => exact opening front (spells_blank middle (closing back))
    | items front items back => exact opening front (spells_items items (closing back))
  have all := spells [] nofun
  rw [List.append_nil, tokens?, Option.map_some, List.append_nil] at all
  rw [read?, all, Option.bind_some, of_tokens_words]

end Texts

section Printer

variable {before spaces : Text} {texts : List Text}

theorem writes_escape (character : Char) : Writes character (escape character) := by
  unfold escape
  split
  · exact .letter (by decide)
  · exact .letter (by decide)
  · exact .letter (by decide)
  · exact .letter (by decide)
  · exact .letter (by decide)
  · exact .letter (by decide)
  · exact .letter (by decide)
  · rename_i noQuote noBackslash _ _ _ _ _
    split
    · rename_i control
      have code : character.toNat < 0x20 := by
        simpa [Char.lt_def, UInt32.lt_iff_toNat_lt] using control
      have digits : WritesUnit (((0 * 16 + 0) * 16 + character.toNat / 16) * 16 +
          character.toNat % 16) ['0', '0', hexDigit (character.toNat / 16),
          hexDigit (character.toNat % 16)] :=
        .digits (.small (by decide)) (.small (by decide)) (.small (by omega)) (.small (by omega))
      have same : ((0 * 16 + 0) * 16 + character.toNat / 16) * 16 + character.toNat % 16 =
          character.toNat := by omega
      rw [same] at digits
      exact .unit digits
    · rename_i printable
      apply Writes.plain noQuote noBackslash
      simpa [Char.lt_def, UInt32.lt_iff_toNat_lt] using printable

theorem writes_text (text : Text) : WritesText text (text.flatMap escape) := by
  induction text with
  | nil => exact .nil
  | cons character rest induction =>
      rw [List.flatMap_cons]
      exact .cons (writes_escape character) induction

theorem blank_new_line (level : Nat) : Blank (newLine level) := by
  intro character member
  rcases List.mem_cons.1 member with rfl | space
  · rfl
  · rw [List.eq_of_mem_replicate space]
    rfl

/-- A printer that puts some blank space in front of every item and commas between them
writes items. -/
theorem writes_items (print : List Json → Text) (front : Blank before) (back : Blank spaces)
    (single : ∀ text, print [ofText text] = before ++ quote text)
    (more : ∀ text next items,
      print (ofText text :: next :: items) = before ++ quote text ++ ',' :: print (next :: items))
    (nonempty : texts ≠ []) : WritesItems texts (print (texts.map ofText) ++ spaces) := by
  induction texts with
  | nil => exact absurd rfl nonempty
  | cons text rest induction =>
      cases rest with
      | nil =>
          have last :
              WritesItems [text] (before ++ '"' :: (text.flatMap escape ++ '"' :: spaces)) :=
            .last front (writes_text text) back
          rw [List.map_singleton, single]
          simpa [quote] using last
      | cons next rest =>
          have later := induction (List.cons_ne_nil next rest)
          have here := WritesItems.more front (writes_text text) blank_nil later
          rw [List.map_cons, List.map_cons, more]
          simpa [quote] using here

theorem writes_array_compact (texts : List Text) : WritesArray texts (ofTexts texts).compact := by
  rw [ofTexts, compact]
  cases texts with
  | nil => exact @WritesArray.empty [] [] [] blank_nil blank_nil blank_nil
  | cons text rest =>
      have single (text : Text) : compactItems [ofText text] = [] ++ quote text := rfl
      have more (text : Text) (next : Json) (items : List Json) :
          compactItems (ofText text :: next :: items) =
            [] ++ quote text ++ ',' :: compactItems (next :: items) := by
        simp [compactItems, compact, ofText, scalarText, literalText]
      have items := writes_items compactItems blank_nil blank_nil single more
        (List.cons_ne_nil text rest)
      simpa using WritesArray.items blank_nil items blank_nil

theorem writes_array_pretty (texts : List Text) : WritesArray texts (ofTexts texts).pretty := by
  rw [ofTexts, pretty]
  cases texts with
  | nil => exact @WritesArray.empty [] [] [] blank_nil blank_nil blank_nil
  | cons text rest =>
      have single (text : Text) : prettyItems 1 [ofText text] = newLine 1 ++ quote text := rfl
      have more (text : Text) (next : Json) (items : List Json) :
          prettyItems 1 (ofText text :: next :: items) =
            newLine 1 ++ quote text ++ ',' :: prettyItems 1 (next :: items) := by
        simp [prettyItems, prettyAt, ofText, scalarText, literalText]
      have items := writes_items (prettyItems 1) (blank_new_line 1) (blank_new_line 0) single more
        (List.cons_ne_nil text rest)
      simpa [prettyAt] using WritesArray.items blank_nil items blank_nil

end Printer

end StylePurge.Json
