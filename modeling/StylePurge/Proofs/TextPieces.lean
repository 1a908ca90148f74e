import Mathlib.Data.List.DropRight
import StylePurge.Text.Word

/-!
What is left of a text when separators are taken away at its ends, and between
which separators a piece of a text stands.
-/

namespace StylePurge.Text

section Trim

variable {isSeparator : Char → Bool}

theorem trim_by_eq (isSeparator : Char → Bool) (text : Text) :
    trimBy isSeparator text = (text.dropWhile isSeparator).rdropWhile isSeparator := rfl

theorem trim_by_slice (isSeparator : Char → Bool) (text : Text) :
    trimBy isSeparator text <:+: text :=
  (List.rdropWhile_prefix isSeparator _).isInfix.trans (List.dropWhile_suffix isSeparator).isInfix

/-- The front of a text that starts with no separator has nothing to drop. -/
theorem drop_while_of_front {front text : Text} (isPrefix : front <+: text.dropWhile isSeparator) :
    front.dropWhile isSeparator = front := by
  rw [List.dropWhile_eq_self_iff]
  intro nonempty
  have whole := List.dropWhile_get_zero_not isSeparator text
    (Nat.lt_of_lt_of_le nonempty isPrefix.length_le)
  rw [isPrefix.getElem nonempty]
  exact whole

theorem trim_by_trim_by (isSeparator : Char → Bool) (text : Text) :
    trimBy isSeparator (trimBy isSeparator text) = trimBy isSeparator text := by
  rw [trim_by_eq isSeparator (trimBy isSeparator text), trim_by_eq isSeparator text,
    drop_while_of_front (List.rdropWhile_prefix isSeparator _), List.rdropWhile_idempotent]

theorem trim_by_pad {left right : Char} (text : Text) (leftSeparates : isSeparator left = true)
    (rightSeparates : isSeparator right = true) :
    trimBy isSeparator (left :: text ++ [right]) = trimBy isSeparator text := by
  rw [trim_by_eq, trim_by_eq, List.cons_append, List.dropWhile_cons_of_pos leftSeparates,
    List.dropWhile_append]
  by_cases allSeparate : (text.dropWhile isSeparator).isEmpty = true
  · rw [if_pos allSeparate, List.isEmpty_iff.1 allSeparate,
      List.dropWhile_cons_of_pos rightSeparates]
    rfl
  · rw [if_neg allSeparate, List.rdropWhile_concat_pos _ _ _ rightSeparates]

theorem trim_by_free {text : Text} (free : ∀ character ∈ text, isSeparator character = false) :
    trimBy isSeparator text = text := by
  have kept : text.dropWhile isSeparator = text := by
    rw [List.dropWhile_eq_self_iff]
    intro nonempty
    simp [free]
  rw [trim_by_eq, kept, List.rdropWhile_eq_self_iff]
  intro nonempty
  simp [free]

end Trim

section Stop

variable {belongs : Char → Bool} {stop : Char}

/-- A run of characters that reaches neither end ends where it would end on its own. -/
theorem take_while_stop (stops : belongs stop = false) (text rest : Text) :
    (text ++ stop :: rest).takeWhile belongs = text.takeWhile belongs := by
  induction text with
  | nil => simp [stops]
  | cons character text induction =>
      cases here : belongs character with
      | false => simp [here]
      | true => simp [here, induction]

theorem drop_while_stop (stops : belongs stop = false) (text rest : Text) :
    (text ++ stop :: rest).dropWhile belongs = text.dropWhile belongs ++ stop :: rest := by
  induction text with
  | nil => simp [stops]
  | cons character text induction =>
      cases here : belongs character with
      | false => simp [here]
      | true => simp [here, induction]

end Stop

section Split

variable {isSeparator : Char → Bool}

theorem split_at_ne_nil (isSeparator : Char → Bool) (text : Text) :
    splitAt isSeparator text ≠ [] := by
  cases text with
  | nil => exact List.cons_ne_nil [] []
  | cons character rest =>
      unfold splitAt
      split
      · exact List.cons_ne_nil _ _
      · split
        · exact List.cons_ne_nil _ _
        · exact List.cons_ne_nil _ _

theorem split_at_separator {character : Char} (separates : isSeparator character = true)
    (rest : Text) :
    splitAt isSeparator (character :: rest) = [] :: splitAt isSeparator rest := by
  rw [splitAt, if_pos separates]

theorem split_at_member {character : Char} (joins : isSeparator character = false)
    {rest piece : Text} {pieces : List Text} (split : splitAt isSeparator rest = piece :: pieces) :
    splitAt isSeparator (character :: rest) = (character :: piece) :: pieces := by
  rw [splitAt, if_neg (by rw [joins]; exact Bool.false_ne_true), split]

theorem split_at_append (left : Text) (free : ∀ character ∈ left, isSeparator character = false)
    {right piece : Text} {pieces : List Text}
    (split : splitAt isSeparator right = piece :: pieces) :
    splitAt isSeparator (left ++ right) = (left ++ piece) :: pieces := by
  induction left with
  | nil => exact split
  | cons character rest induction =>
      exact split_at_member (free character List.mem_cons_self)
        (induction fun other member => free other (List.mem_cons_of_mem character member))

theorem split_at_free {text : Text} (free : ∀ character ∈ text, isSeparator character = false) :
    splitAt isSeparator text = [text] := by
  have split := split_at_append text free (show splitAt isSeparator [] = [[]] from rfl)
  rwa [List.append_nil] at split

theorem split_at_parts {separator : Char} (separates : isSeparator separator = true)
    (front rest : Text) :
    splitAt isSeparator (front ++ separator :: rest) =
      splitAt isSeparator front ++ splitAt isSeparator rest := by
  induction front with
  | nil => exact split_at_separator separates rest
  | cons character front induction =>
      by_cases here : isSeparator character = true
      · rw [List.cons_append, split_at_separator here, split_at_separator here, induction]
        rfl
      · have joins : isSeparator character = false := Bool.eq_false_iff.2 here
        obtain ⟨piece, pieces, split⟩ :=
          List.exists_cons_of_ne_nil (split_at_ne_nil isSeparator front)
        rw [split, List.cons_append] at induction
        rw [List.cons_append, split_at_member joins induction, split_at_member joins split]
        rfl

theorem split_at_trivial {text : Text} (trivial : splitAt isSeparator text = [[]]) : text = [] := by
  cases text with
  | nil => rfl
  | cons first rest =>
      obtain ⟨piece, pieces, split⟩ :=
        List.exists_cons_of_ne_nil (split_at_ne_nil isSeparator rest)
      by_cases separates : isSeparator first = true
      · rw [split_at_separator separates, split] at trivial
        exact nomatch (List.cons.inj trivial).2
      · rw [split_at_member (Bool.eq_false_iff.2 separates) split] at trivial
        exact nomatch (List.cons.inj trivial).1

/-- Pieces hold no separators, and their characters come from the text. -/
theorem mem_piece {text piece : Text} (member : piece ∈ splitAt isSeparator text) {character : Char}
    (inside : character ∈ piece) : isSeparator character = false ∧ character ∈ text := by
  induction text generalizing piece with
  | nil =>
      rw [splitAt, List.mem_singleton] at member
      rw [member] at inside
      exact absurd inside List.not_mem_nil
  | cons first rest induction =>
      have later {other : Text} (found : other ∈ splitAt isSeparator rest)
          (inOther : character ∈ other) :
          isSeparator character = false ∧ character ∈ first :: rest :=
        ⟨(induction found inOther).1, List.mem_cons_of_mem first (induction found inOther).2⟩
      by_cases separates : isSeparator first = true
      · rw [split_at_separator separates] at member
        rcases List.mem_cons.1 member with rfl | found
        · exact absurd inside List.not_mem_nil
        · exact later found inside
      · have joins : isSeparator first = false := Bool.eq_false_iff.2 separates
        obtain ⟨head, pieces, split⟩ :=
          List.exists_cons_of_ne_nil (split_at_ne_nil isSeparator rest)
        rw [split_at_member joins split] at member
        rcases List.mem_cons.1 member with rfl | found
        · rcases List.mem_cons.1 inside with rfl | inHead
          · exact ⟨joins, List.mem_cons_self⟩
          · exact later (by rw [split]; exact List.mem_cons_self) inHead
        · exact later (by rw [split]; exact List.mem_cons_of_mem head found) inside

theorem exists_piece {character : Char} (joins : isSeparator character = false) {text : Text}
    (member : character ∈ text) : ∃ piece ∈ splitAt isSeparator text, character ∈ piece := by
  induction text with
  | nil => exact absurd member List.not_mem_nil
  | cons first rest induction =>
      obtain ⟨head, pieces, split⟩ := List.exists_cons_of_ne_nil (split_at_ne_nil isSeparator rest)
      by_cases separates : isSeparator first = true
      · have later : character ∈ rest := by
          apply (List.mem_cons.1 member).resolve_left
          rintro rfl
          exact Bool.false_ne_true (joins.symm.trans separates)
        obtain ⟨piece, found, inside⟩ := induction later
        rw [split_at_separator separates]
        exact ⟨piece, List.mem_cons_of_mem [] found, inside⟩
      · rw [split_at_member (Bool.eq_false_iff.2 separates) split]
        rcases List.mem_cons.1 member with rfl | later
        · exact ⟨_, List.mem_cons_self, List.mem_cons_self⟩
        · obtain ⟨piece, found, inside⟩ := induction later
          rw [split] at found
          rcases List.mem_cons.1 found with rfl | behind
          · exact ⟨_, List.mem_cons_self, List.mem_cons_of_mem first inside⟩
          · exact ⟨piece, List.mem_cons_of_mem _ behind, inside⟩

/-- More separators split each piece further. -/
theorem split_at_refine (coarse fine : Char → Bool)
    (finer : ∀ character, coarse character = true → fine character = true) (text : Text) :
    splitAt fine text = (splitAt coarse text).flatMap (splitAt fine) := by
  induction text with
  | nil => rfl
  | cons character rest induction =>
      by_cases coarseHere : coarse character = true
      · rw [split_at_separator coarseHere, split_at_separator (finer character coarseHere),
          induction]
        rfl
      · have coarseJoins : coarse character = false := Bool.eq_false_iff.2 coarseHere
        obtain ⟨piece, pieces, split⟩ := List.exists_cons_of_ne_nil (split_at_ne_nil coarse rest)
        rw [split, List.flatMap_cons] at induction
        rw [split_at_member coarseJoins split, List.flatMap_cons]
        by_cases fineHere : fine character = true
        · rw [split_at_separator fineHere, split_at_separator fineHere, induction]
          rfl
        · have fineJoins : fine character = false := Bool.eq_false_iff.2 fineHere
          obtain ⟨head, tail, inner⟩ := List.exists_cons_of_ne_nil (split_at_ne_nil fine piece)
          rw [inner] at induction
          rw [split_at_member fineJoins induction, split_at_member fineJoins inner]
          rfl

/-- Replacing characters before splitting is the same as splitting where the
replaced characters separate, and replacing in the pieces. -/
theorem split_at_map {before after : Char → Bool} {replace : Char → Char} {text : Text}
    (agree : ∀ character ∈ text, after (replace character) = before character) :
    splitAt after (text.map replace) = (splitAt before text).map (List.map replace) := by
  induction text with
  | nil => rfl
  | cons character rest induction =>
      have here := agree character List.mem_cons_self
      have later := induction fun other member =>
        agree other (List.mem_cons_of_mem character member)
      rw [List.map_cons]
      by_cases separates : before character = true
      · rw [split_at_separator separates, split_at_separator (here.trans separates), later]
        rfl
      · have joins : before character = false := Bool.eq_false_iff.2 separates
        obtain ⟨piece, pieces, split⟩ := List.exists_cons_of_ne_nil (split_at_ne_nil before rest)
        rw [split] at later
        rw [split_at_member joins split, split_at_member (here.trans joins) later]
        rfl

end Split

theorem in_ranges_code {ranges : List (Nat × Nat)} {character : Char}
    (member : inRanges ranges character = true) :
    character.toNat ∈ ranges.flatMap fun range => List.range' range.1 (range.2 + 1 - range.1) := by
  obtain ⟨range, found, bounds⟩ := List.any_eq_true.1 member
  rw [Bool.and_eq_true, decide_eq_true_eq, decide_eq_true_eq] at bounds
  rw [List.mem_flatMap]
  refine ⟨range, found, ?_⟩
  rw [List.mem_range'_1]
  omega

theorem in_ranges_apart {first second : List (Nat × Nat)} {character : Char}
    (apart : ∀ one ∈ first, ∀ other ∈ second, one.2 < other.1 ∨ other.2 < one.1)
    (member : inRanges first character = true) : inRanges second character = false := by
  obtain ⟨one, inFirst, here⟩ := List.any_eq_true.1 member
  rw [Bool.eq_false_iff]
  intro both
  obtain ⟨other, inSecond, there⟩ := List.any_eq_true.1 both
  rw [Bool.and_eq_true, decide_eq_true_eq, decide_eq_true_eq] at here there
  have := apart one inFirst other inSecond
  omega

theorem name_character_not_blank (character : Char) (named : isNameCharacter character = true) :
    isBlank character = false := by
  rw [Bool.eq_false_iff]
  intro blank
  -- The table of word characters is long; this comparison is what evaluates fast on numbers.
  have compared : (blankRanges.all fun one => wordRanges.all fun other =>
      Nat.blt one.2 other.1 || Nat.blt other.2 one.1) = true := by
    decide +kernel
  have apart : ∀ one ∈ blankRanges, ∀ other ∈ wordRanges, one.2 < other.1 ∨ other.2 < one.1 := by
    simpa only [List.all_eq_true, Bool.or_eq_true, Nat.blt_eq] using compared
  have noMark : ∀ code ∈ blankRanges.flatMap fun range =>
      List.range' range.1 (range.2 + 1 - range.1),
      (isAsciiWord (Char.ofNat code) || Char.ofNat code == '-') = false := by
    decide +kernel
  have wide : inRanges wordRanges character = false := in_ranges_apart apart blank
  have narrow := noMark character.toNat (in_ranges_code blank)
  rw [Char.ofNat_toNat, Bool.or_eq_false_iff] at narrow
  rw [isNameCharacter, isWord, narrow.1, narrow.2, wide] at named
  exact nomatch named

/-- The marks that stand between names where names are written down. -/
theorem mark_not_name (mark : Char) (listed : mark ∈ ['.', '\\', '#']) :
    isNameCharacter mark = false := by
  have none : ['.', '\\', '#'].any isNameCharacter = false := by decide +kernel
  exact Bool.eq_false_iff.2 (List.any_eq_false.1 none mark listed)

/-- A run of name characters, which is what a scan of markup can find. -/
structure IsName (text : Text) : Prop where
  nonempty : text ≠ []
  characters : ∀ character ∈ text, isNameCharacter character = true

section Names

variable {name : Text}

theorem name_not_mem (isName : name.IsName) {character : Char}
    (other : isNameCharacter character = false) : character ∉ name := by
  intro member
  rw [isName.characters character member] at other
  exact nomatch other

theorem name_without_blank (isName : name.IsName) :
    ∀ character ∈ name, isBlank character = false := by
  intro character member
  exact name_character_not_blank character (isName.characters character member)

theorem blank_not_mem (isName : name.IsName) {character : Char}
    (blank : isBlank character = true) : character ∉ name := by
  intro member
  rw [name_without_blank isName character member] at blank
  exact nomatch blank

theorem trim_name (isName : name.IsName) : trim name = name :=
  trim_by_free (name_without_blank isName)

theorem words_name (isName : name.IsName) : words name = [name] := by
  rw [words, wordsBy, split_at_free (name_without_blank isName)]
  simp [isName.nonempty]

end Names

end StylePurge.Text
