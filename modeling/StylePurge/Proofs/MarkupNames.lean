import StylePurge.Markup
import StylePurge.Proofs.OrderedSetMembers
import StylePurge.Proofs.TextPieces

/-!
The names in one attribute value. Values hold only name characters, spaces and
colons, so reading colons as spaces and splitting at blanks is the same as
splitting at spaces and colons, and what is left are runs of name characters.
-/

namespace StylePurge.Markup

/-- What separates two names in an attribute value. -/
def isNameEnd (character : Char) : Bool := character == ' ' || character == ':'

theorem value_characters {text value rest : Text} (found : value? text = some (value, rest)) :
    ∀ character ∈ value, isValueCharacter character = true := by
  unfold value? at found
  split at found
  · simp only [Option.ite_none_left_eq_some, Option.some.injEq, Prod.mk.injEq] at found
    rw [← found.2.1]
    exact List.all_eq_true.1 List.all_takeWhile
  · exact nomatch found

theorem attribute_characters {text value rest : Text}
    (found : attribute? text = some (value, rest)) :
    ∀ character ∈ value, isValueCharacter character = true := by
  unfold attribute? at found
  split at found
  · exact value_characters found
  · exact nomatch found

theorem attribute_values_some {character : Char} {rest value behind : Text}
    (found : attribute? (character :: rest) = some (value, behind)) :
    attributeValues (character :: rest) = value :: attributeValues behind := by
  rw [attributeValues]
  dsimp only
  rw [found]

theorem attribute_values_none {character : Char} {rest : Text}
    (missing : attribute? (character :: rest) = none) :
    attributeValues (character :: rest) = attributeValues rest := by
  rw [attributeValues]
  dsimp only
  rw [missing]

theorem attribute_value_characters {markup value : Text} (member : value ∈ attributeValues markup) :
    ∀ character ∈ value, isValueCharacter character = true := by
  induction markup using attributeValues.induct with
  | case1 =>
      rw [attributeValues] at member
      exact absurd member List.not_mem_nil
  | case2 character rest first behind found shorter induction =>
      rw [attribute_values_some found] at member
      rcases List.mem_cons.1 member with rfl | later
      · exact attribute_characters found
      · exact induction later
  | case3 character rest missing induction =>
      rw [attribute_values_none missing] at member
      exact induction member

theorem value_names_eq {value : Text}
    (characters : ∀ character ∈ value, isValueCharacter character = true) :
    valueNames value = Text.wordsBy isNameEnd value := by
  have agree : ∀ character ∈ value,
      Text.isBlank (if character = ':' then ' ' else character) = isNameEnd character := by
    intro character member
    have allowed := characters character member
    by_cases colon : character = ':'
    · rw [if_pos colon, colon]
      rfl
    · rw [if_neg colon]
      by_cases space : character = ' '
      · rw [space]
        rfl
      · rw [isValueCharacter, Bool.or_eq_true, Bool.or_eq_true, beq_iff_eq, beq_iff_eq] at allowed
        have named := (allowed.resolve_right colon).resolve_right space
        rw [Text.name_character_not_blank character named, isNameEnd, beq_false_of_ne space,
          beq_false_of_ne colon]
        rfl
  have fixed : ∀ piece ∈ Text.splitAt isNameEnd value,
      piece.map (fun character => if character = ':' then ' ' else character) = piece := by
    intro piece member
    have same : ∀ character ∈ piece, (if character = ':' then ' ' else character) = character := by
      intro character inside
      have free := (Text.mem_piece member inside).1
      rw [if_neg]
      rintro rfl
      exact nomatch free
    exact (List.map_congr_left same).trans (List.map_id' piece)
  rw [valueNames, Text.words, Text.wordsBy, Text.wordsBy, Text.split_at_map agree,
    List.map_congr_left fixed, List.map_id']

theorem class_is_name {markup name : Text} (member : name ∈ classes markup) : name.IsName := by
  rw [classes, OrderedSet.mem_of_list, List.mem_flatMap] at member
  obtain ⟨value, found, inValue⟩ := member
  have allowed := attribute_value_characters found
  rw [value_names_eq allowed, Text.wordsBy, List.mem_filter] at inValue
  obtain ⟨piece, nonempty⟩ := inValue
  constructor
  · rintro rfl
    simp at nonempty
  · intro character inside
    obtain ⟨free, fromValue⟩ := Text.mem_piece piece inside
    have known := allowed character fromValue
    rw [isNameEnd] at free
    rwa [isValueCharacter, Bool.or_assoc, free, Bool.or_false] at known

/-- The part of a token in front of its first colon. -/
def firstName (token : Text) : Text := token.takeWhile (· != ':')

theorem token_eq (token : Text) :
    token = firstName token ∨ ∃ rest, token = firstName token ++ ':' :: rest := by
  have parts : firstName token ++ token.dropWhile (· != ':') = token :=
    List.takeWhile_append_dropWhile
  cases behind : token.dropWhile (· != ':') with
  | nil =>
      rw [behind, List.append_nil] at parts
      exact .inl parts.symm
  | cons character rest =>
      have colon := List.head?_dropWhile_not (· != ':') token
      rw [behind, List.head?_cons] at colon
      have same : character = ':' := by simpa using colon
      rw [behind, same] at parts
      exact .inr ⟨rest, parts.symm⟩

section Token

variable {markup value token : Text}

theorem first_name_ne_nil (nonempty : token ≠ []) (front : token.head? ≠ some ':') :
    firstName token ≠ [] := by
  obtain ⟨character, rest, rfl⟩ := List.exists_cons_of_ne_nil nonempty
  have notColon : character ≠ ':' := by
    rintro rfl
    exact front rfl
  rw [firstName, List.takeWhile_cons_of_pos (p := (· != ':')) (bne_iff_ne.2 notColon)]
  exact List.cons_ne_nil _ _

theorem first_name_free (member : token ∈ Text.wordsBy (· == ' ') value) :
    ∀ character ∈ firstName token, isNameEnd character = false := by
  intro character inside
  have notColon : (character != ':') = true :=
    List.all_eq_true.1 (List.all_takeWhile (p := (· != ':'))) character inside
  have notSpace := (Text.mem_piece (List.mem_of_mem_filter member)
    (List.takeWhile_subset _ inside)).1
  rw [bne, Bool.not_eq_true'] at notColon
  rw [isNameEnd, notSpace, notColon]
  rfl

theorem first_name_characters (found : value ∈ attributeValues markup)
    (member : token ∈ Text.wordsBy (· == ' ') value) :
    ∀ character ∈ firstName token, Text.isNameCharacter character = true := by
  intro character inside
  have fromValue := (Text.mem_piece (List.mem_of_mem_filter member)
    (List.takeWhile_subset _ inside)).2
  have allowed := attribute_value_characters found character fromValue
  have free := first_name_free member character inside
  rw [isNameEnd] at free
  rw [isValueCharacter, Bool.or_assoc, free, Bool.or_false] at allowed
  exact allowed

theorem first_name_piece (member : token ∈ Text.wordsBy (· == ' ') value) :
    firstName token ∈ Text.splitAt isNameEnd token := by
  have free := first_name_free member
  rcases token_eq token with whole | ⟨rest, parts⟩
  · have split := Text.split_at_append (firstName token) free
      (show Text.splitAt isNameEnd [] = [[]] from rfl)
    rw [List.append_nil, ← whole] at split
    rw [split, ← whole]
    exact List.mem_cons_self
  · have split := Text.split_at_append (firstName token) free
      (Text.split_at_separator (show isNameEnd ':' = true from rfl) rest)
    rw [← parts, List.append_nil] at split
    rw [split]
    exact List.mem_cons_self

theorem first_name_mem (found : value ∈ attributeValues markup)
    (member : token ∈ Text.wordsBy (· == ' ') value) (front : token.head? ≠ some ':') :
    firstName token ∈ classes markup := by
  obtain ⟨tokenPiece, kept⟩ := List.mem_filter.1 member
  have nonempty : token ≠ [] := by
    rintro rfl
    exact nomatch kept
  have finer : ∀ character : Char, (character == ' ') = true → isNameEnd character = true :=
    fun character space => by rw [isNameEnd, space, Bool.true_or]
  rw [classes, OrderedSet.mem_of_list, List.mem_flatMap]
  refine ⟨value, found, ?_⟩
  rw [value_names_eq (attribute_value_characters found), Text.wordsBy, List.mem_filter,
    Text.split_at_refine (· == ' ') isNameEnd finer, List.mem_flatMap]
  refine ⟨⟨token, tokenPiece, first_name_piece member⟩, ?_⟩
  rw [Bool.not_eq_true', List.isEmpty_eq_false_iff]
  exact first_name_ne_nil nonempty front

end Token

end StylePurge.Markup
