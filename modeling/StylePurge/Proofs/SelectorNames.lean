import StylePurge.Proofs.CommentScan
import StylePurge.Proofs.OrderedSetMembers
import StylePurge.Proofs.TextPieces
import StylePurge.Selector

/-!
The class names of a selector. A dot is never part of a name, so the scan from
left to right comes to stand at every dot, and finds the name behind it whatever
names it found before.
-/

namespace StylePurge.Selector

theorem class_names_dot (rest : Text) :
    classNames ('.' :: rest) =
      if ((afterEscape rest).takeWhile Text.isNameCharacter).isEmpty then classNames rest
      else (afterEscape rest).takeWhile Text.isNameCharacter ::
        classNames ((afterEscape rest).dropWhile Text.isNameCharacter) := by
  rw [classNames]

theorem class_names_other {character : Char} (notDot : character ≠ '.') (rest : Text) :
    classNames (character :: rest) = classNames rest := by
  rw [classNames]
  exact notDot

theorem after_escape_of_ne {text : Text} (unescaped : text.head? ≠ some '\\') :
    afterEscape text = text := by
  unfold afterEscape
  split
  · exact absurd rfl unescaped
  · rfl

theorem after_escape_append_dot (text rest : Text) :
    afterEscape (text ++ '.' :: rest) = afterEscape text ++ '.' :: rest := by
  cases text with
  | nil => exact after_escape_of_ne fun same => absurd (Option.some.inj same) (by decide)
  | cons character behind =>
      by_cases escape : character = '\\'
      · rw [escape]
        rfl
      · have unescaped : (character :: behind).head? ≠ some '\\' := by
          rw [List.head?_cons, ne_eq, Option.some.injEq]
          exact escape
        rw [after_escape_of_ne unescaped]
        exact after_escape_of_ne unescaped

theorem drop_name_append_dot (text rest : Text) :
    (text ++ '.' :: rest).dropWhile Text.isNameCharacter =
      text.dropWhile Text.isNameCharacter ++ '.' :: rest :=
  Text.drop_while_stop (Text.mark_not_name '.' (by decide)) text rest

/-- What stands between a dot and the name it introduces. -/
def IsEscape (escape : Text) : Prop := escape = [] ∨ escape = ['\\']

/-- Whether a name that stands in front of this text is not continued by it. -/
def EndsName (after : Text) : Prop :=
  ∀ next, after.head? = some next → Text.isNameCharacter next = false

section Name

variable {escape name after : Text}

theorem after_escape_name (escapes : IsEscape escape) (nonempty : name ≠ [])
    (named : ∀ character ∈ name, Text.isNameCharacter character = true) :
    afterEscape (escape ++ (name ++ after)) = name ++ after := by
  rcases escapes with rfl | rfl
  · obtain ⟨first, rest, rfl⟩ := List.exists_cons_of_ne_nil nonempty
    apply after_escape_of_ne
    intro backslash
    have here := named first List.mem_cons_self
    rw [List.nil_append, List.cons_append, List.head?_cons, Option.some.injEq] at backslash
    rw [backslash, Text.mark_not_name '\\' (by decide)] at here
    exact nomatch here
  · rfl

theorem take_name (named : ∀ character ∈ name, Text.isNameCharacter character = true)
    (ends : EndsName after) : (name ++ after).takeWhile Text.isNameCharacter = name := by
  rw [List.takeWhile_append_of_pos named]
  cases after with
  | nil => rw [List.takeWhile_nil, List.append_nil]
  | cons next rest =>
      rw [List.takeWhile_cons_of_neg, List.append_nil]
      rw [ends next rfl]
      exact Bool.false_ne_true

theorem mem_class_names (before : Text) (escapes : IsEscape escape) (nonempty : name ≠ [])
    (named : ∀ character ∈ name, Text.isNameCharacter character = true) (ends : EndsName after) :
    name ∈ classNames (before ++ '.' :: (escape ++ (name ++ after))) := by
  -- A found name is skipped whole, so the text in front of the dot shrinks by more than one.
  induction length : before.length using Nat.strongRecOn generalizing before with
  | ind size induction =>
    cases before with
    | nil =>
        rw [List.nil_append, class_names_dot, after_escape_name escapes nonempty named,
          take_name named ends, if_neg (by rwa [List.isEmpty_iff])]
        exact List.mem_cons_self
    | cons character rest =>
        rw [List.cons_append]
        rw [List.length_cons] at length
        by_cases dot : character = '.'
        · rw [dot, class_names_dot, after_escape_append_dot]
          split
          · exact induction rest.length (by omega) rest rfl
          · apply List.mem_cons_of_mem
            rw [drop_name_append_dot]
            have escapeBound := after_escape_length rest
            have nameBound := (List.dropWhile_suffix Text.isNameCharacter
              (l := afterEscape rest)).length_le
            exact induction _ (by omega) _ rfl
        · rw [class_names_other dot]
          exact induction rest.length (by omega) rest rfl

end Name

theorem selector_eq (text : Text) :
    selector? text = if '{' ∈ text then some (text.takeWhile (· != '{')) else none := by
  induction text with
  | nil => rfl
  | cons character rest induction =>
      rw [selector?]
      by_cases brace : character = '{'
      · rw [if_pos brace, if_pos (by rw [brace]; exact List.mem_cons_self),
          List.takeWhile_cons_of_neg (by rw [brace]; decide)]
      · have kept : (character != '{') = true := bne_iff_ne.2 brace
        rw [if_neg brace, induction, List.takeWhile_cons_of_pos (p := (· != '{')) kept]
        by_cases block : '{' ∈ rest
        · rw [if_pos block, if_pos (List.mem_cons_of_mem character block)]
          rfl
        · rw [if_neg block, if_neg, Option.map_none]
          intro member
          rcases List.mem_cons.1 member with same | later
          · exact brace same.symm
          · exact block later

theorem without_comments_of_plain {ruleText : Text} (plain : ¬Comment.opener <:+: ruleText) :
    withoutComments ruleText = ruleText := by
  rw [withoutComments, if_neg]
  rw [Text.contains_text_iff]
  exact plain

theorem without_comments_eq (text : Text) : withoutComments text = Comment.strip text := by
  by_cases plain : Comment.opener <:+: text
  · have contained : Text.containsText ['/', '*'] text = true :=
      (Text.contains_text_iff Comment.opener text).2 plain
    rw [withoutComments, if_pos contained]
  · rw [without_comments_of_plain plain, Comment.strip, Comment.filter_plain text plain]

theorem strip_of_plain {text : Text} (plain : ¬Comment.opener <:+: text) :
    Comment.strip text = text := by
  rw [← without_comments_eq, without_comments_of_plain plain]

/-- Comments have no part in the classes, whether the text is searched for them or not. -/
theorem classes_strip (text : Text) : classes (Comment.strip text) = classes text := by
  have clean : ¬Comment.opener <:+: Comment.strip text := Comment.clean_opener_free text
  rw [classes, classes, without_comments_eq, without_comments_eq, strip_of_plain clean]

/-- A name that the scan finds in front of the first brace is a class of the
rule, unless the rule has no classes at all. -/
theorem classes_of_named {ruleText name : Text} (plain : ¬Comment.opener <:+: ruleText)
    (found : name ∈ classNames (ruleText.takeWhile (· != '{'))) :
    classes ruleText = .empty ∨ name ∈ classes ruleText := by
  rw [classes, without_comments_of_plain plain, selector_eq]
  by_cases block : '{' ∈ ruleText
  · rw [if_pos block]
    dsimp only
    by_cases atRule : isAtRule (ruleText.takeWhile (· != '{')) = true
    · rw [if_pos atRule]
      exact .inl rfl
    · rw [if_neg atRule, OrderedSet.mem_of_list]
      exact .inr found
  · rw [if_neg block]
    exact .inl rfl

end StylePurge.Selector
