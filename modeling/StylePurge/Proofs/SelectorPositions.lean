import StylePurge.Proofs.FirstAppearance
import StylePurge.Proofs.SelectorNames

/-!
Class names by position. A selector introduces a name at every dot that a run of name
characters follows, directly or behind one backslash. The scan from left to right jumps
over each name it finds, and no dot stands in what it jumps over, so it misses none.
The classes of a text therefore are the names that its selector introduces anywhere, in
the order in which they first come.
-/

namespace StylePurge.Selector

/-- A name stands behind the dot at this place, and it is not continued. -/
def IntroducedAt (selector : Text) (place : Nat) (name : Text) : Prop :=
  ∃ escape after, selector.drop place = '.' :: (escape ++ (name ++ after)) ∧
    IsEscape escape ∧ name.IsName ∧ EndsName after

/-- The first place of one name is in front of every place of the other. -/
def IntroducedBefore (selector earlier later : Text) : Prop :=
  ∃ place, IntroducedAt selector place earlier ∧
    ∀ other, IntroducedAt selector other later → place < other

/-- At-rules start with an at-sign, or with blanks and an at-sign. -/
def IsPrelude (selector : Text) : Prop :=
  ∃ blanks rest, selector = blanks ++ '@' :: rest ∧
    ∀ character ∈ blanks, Text.isBlank character = true

theorem is_at_rule_iff (selector : Text) : isAtRule selector = true ↔ IsPrelude selector := by
  rw [isAtRule, beq_iff_eq]
  constructor
  · intro starts
    obtain ⟨rest, behind⟩ := List.head?_eq_some_iff.1 starts
    refine ⟨selector.takeWhile Text.isBlank, rest, ?_, List.all_eq_true.1 List.all_takeWhile⟩
    rw [← behind, List.takeWhile_append_dropWhile]
  · rintro ⟨blanks, rest, rfl, blank⟩
    rw [List.dropWhile_append_of_pos blank,
      List.dropWhile_cons_of_neg (show ¬Text.isBlank '@' = true by decide)]
    rfl

theorem exists_escape (text : Text) :
    ∃ escape, IsEscape escape ∧ text = escape ++ afterEscape text := by
  unfold afterEscape
  split
  · exact ⟨['\\'], .inr rfl, rfl⟩
  · exact ⟨[], .inl rfl, rfl⟩

theorem ends_name_drop (text : Text) : EndsName (text.dropWhile Text.isNameCharacter) := by
  intro next head
  have stops := List.head?_dropWhile_not Text.isNameCharacter text
  rw [head] at stops
  exact stops

/-- The name that the text introduces at its front. -/
def frontName? : Text → Option Text
  | '.' :: rest =>
      let name := (afterEscape rest).takeWhile Text.isNameCharacter
      if name.isEmpty then none else some name
  | _ => none

theorem front_name_other {character : Char} (notDot : character ≠ '.') (rest : Text) :
    frontName? (character :: rest) = none := by
  unfold frontName?
  split
  · rename_i same
    exact absurd (List.cons.inj same).1 notDot
  · rfl

theorem front_name_eq_some_iff {text name : Text} :
    frontName? text = some name ↔ IntroducedAt text 0 name := by
  constructor
  · intro found
    unfold frontName? at found
    split at found
    · rename_i rest
      simp only [Option.ite_none_left_eq_some, Option.some.injEq] at found
      obtain ⟨nonempty, rfl⟩ := found
      obtain ⟨escape, escapes, parts⟩ := exists_escape rest
      refine ⟨escape, (afterEscape rest).dropWhile Text.isNameCharacter, ?_, escapes,
        ⟨?_, List.all_eq_true.1 List.all_takeWhile⟩, ends_name_drop _⟩
      · rw [List.takeWhile_append_dropWhile, ← parts]
        rfl
      · rwa [List.isEmpty_iff] at nonempty
    · exact nomatch found
  · rintro ⟨escape, after, text, escapes, isName, ends⟩
    rw [List.drop_zero] at text
    have named : ¬name.isEmpty = true := fun empty => isName.nonempty (List.isEmpty_iff.1 empty)
    rw [text, frontName?, after_escape_name escapes isName.nonempty isName.characters,
      take_name isName.characters ends, if_neg named]

def namesByPosition : Text → List Text
  | [] => []
  | character :: rest => (frontName? (character :: rest)).toList ++ namesByPosition rest

theorem names_by_position_free {front : Text} (free : '.' ∉ front) (rest : Text) :
    namesByPosition (front ++ rest) = namesByPosition rest := by
  induction front with
  | nil => rfl
  | cons character front induction =>
      have notDot : character ≠ '.' := by
        rintro rfl
        exact free List.mem_cons_self
      rw [List.cons_append, namesByPosition, front_name_other notDot]
      exact induction fun member => free (List.mem_cons_of_mem character member)

/-- What the scan jumps over holds no dot, so it comes to stand at every dot. -/
theorem class_names_eq (selector : Text) : classNames selector = namesByPosition selector := by
  induction selector using classNames.induct with
  | case1 => rw [classNames, namesByPosition]
  | case2 rest name unnamed induction =>
      rw [class_names_dot, if_pos unnamed, induction, namesByPosition, frontName?, if_pos unnamed]
      rfl
  | case3 rest name named induction =>
      obtain ⟨escape, escapes, parts⟩ := exists_escape rest
      have jumped : '.' ∉ escape ++ name := by
        rw [List.mem_append]
        rintro (inEscape | inName)
        · rcases escapes with rfl | rfl
          · exact absurd inEscape List.not_mem_nil
          · exact absurd inEscape (by decide)
        · have here := List.all_eq_true.1 List.all_takeWhile '.' inName
          rw [Text.mark_not_name '.' (by decide)] at here
          exact absurd here Bool.false_ne_true
      have whole : rest =
          (escape ++ name) ++ (afterEscape rest).dropWhile Text.isNameCharacter := by
        rw [List.append_assoc, List.takeWhile_append_dropWhile]
        exact parts
      have onward : namesByPosition rest =
          namesByPosition ((afterEscape rest).dropWhile Text.isNameCharacter) :=
        (congrArg namesByPosition whole).trans (names_by_position_free jumped _)
      rw [class_names_dot, if_neg named, induction, namesByPosition, frontName?, if_neg named,
        onward]
      rfl
  | case4 character rest notDot induction =>
      rw [class_names_other notDot, induction, namesByPosition, front_name_other notDot]
      rfl

section Places

variable {character : Char} {rest name : Text}

theorem introduced_cons :
    (∃ place, IntroducedAt (character :: rest) place name) ↔
      frontName? (character :: rest) = some name ∨ ∃ place, IntroducedAt rest place name := by
  constructor
  · rintro ⟨place, introduced⟩
    cases place with
    | zero => exact .inl (front_name_eq_some_iff.2 introduced)
    | succ place => exact .inr ⟨place, introduced⟩
  · rintro (front | ⟨place, introduced⟩)
    · exact ⟨0, front_name_eq_some_iff.1 front⟩
    · exact ⟨place + 1, introduced⟩

end Places

theorem mem_names_by_position {selector name : Text} :
    name ∈ namesByPosition selector ↔ ∃ place, IntroducedAt selector place name := by
  induction selector with
  | nil =>
      constructor
      · exact fun member => absurd member List.not_mem_nil
      · rintro ⟨place, escape, after, text, _⟩
        rw [List.drop_nil] at text
        exact nomatch text
  | cons character rest induction =>
      rw [namesByPosition, List.mem_append, Option.mem_toList, induction, introduced_cons]

theorem introduced_before {selector earlier later : Text}
    (member : earlier ∈ namesByPosition selector)
    (order : OrderedSet.ByFirstPlace (namesByPosition selector) [earlier, later]) :
    IntroducedBefore selector earlier later := by
  induction selector with
  | nil => exact absurd member List.not_mem_nil
  | cons character rest induction =>
      have passed (notLater : frontName? (character :: rest) ≠ some later)
          (before : IntroducedBefore rest earlier later) :
          IntroducedBefore (character :: rest) earlier later := by
        obtain ⟨place, introduced, first⟩ := before
        refine ⟨place + 1, introduced, ?_⟩
        rintro (_ | other) there
        · exact absurd (front_name_eq_some_iff.2 there) notLater
        · exact Nat.succ_lt_succ (first other there)
      rw [namesByPosition] at member order
      cases front : frontName? (character :: rest) with
      | none =>
          rw [front] at member order
          exact passed (by rw [front]; exact nofun) (induction member order)
      | some name =>
          rw [front, Option.toList_some, List.singleton_append] at member order
          obtain ⟨notLater, first⟩ := OrderedSet.by_first_place_cons.1 order
          have otherFront : frontName? (character :: rest) ≠ some later := by
            rw [front, ne_eq, Option.some.injEq]
            exact notLater
          by_cases starts : name = earlier
          · subst starts
            refine ⟨0, front_name_eq_some_iff.1 front, ?_⟩
            rintro (_ | other) there
            · exact absurd (front_name_eq_some_iff.2 there) otherFront
            · exact Nat.succ_pos other
          · exact passed otherFront (induction
              ((List.mem_cons.1 member).resolve_left (Ne.symm starts)) (first.resolve_left starts))

theorem classes_of_prelude {text : Text}
    (none : '{' ∉ Comment.strip text ∨ IsPrelude ((Comment.strip text).takeWhile (· != '{'))) :
    classes text = .empty := by
  rw [classes, without_comments_eq, selector_eq]
  by_cases block : '{' ∈ Comment.strip text
  · have atRule := (is_at_rule_iff _).2 (none.resolve_left (not_not_intro block))
    simp only [if_pos block, if_pos atRule]
  · simp only [if_neg block]

theorem classes_of_selector {text : Text} (block : '{' ∈ Comment.strip text)
    (noPrelude : ¬IsPrelude ((Comment.strip text).takeWhile (· != '{'))) :
    classes text = .ofList (namesByPosition ((Comment.strip text).takeWhile (· != '{'))) := by
  have noAtRule := mt (is_at_rule_iff _).1 noPrelude
  rw [classes, without_comments_eq, selector_eq]
  simp only [if_pos block, if_neg noAtRule, class_names_eq]

/-- The classes of a text are read off what is left of it without comments, whether or not it
has any. Text without a block and at-rules have none; otherwise they are the names that stand
behind a dot anywhere in front of the first brace, each once, in the order of their first
places. -/
theorem classes_by_position (text : Text) :
    let bare := Comment.strip text
    let selector := bare.takeWhile (· != '{')
    classes text = classes bare ∧
      ('{' ∉ bare ∨ IsPrelude selector → classes text = .empty) ∧
      ('{' ∈ bare → ¬IsPrelude selector →
        (∀ name, name ∈ classes text ↔ ∃ place, IntroducedAt selector place name) ∧
          (classes text).toList.Nodup ∧
          (classes text).toList.Pairwise (IntroducedBefore selector)) := by
  intro bare selector
  refine ⟨(classes_strip text).symm, classes_of_prelude, fun block noPrelude => ?_⟩
  have found : classes text = .ofList (namesByPosition selector) :=
    classes_of_selector block noPrelude
  refine ⟨fun name => ?_, (classes text).distinct, ?_⟩
  · rw [found, OrderedSet.mem_of_list, mem_names_by_position]
  · rw [found]
    apply (OrderedSet.of_list_by_first_place (namesByPosition selector)).imp_of_mem
    intro earlier later member _ order
    exact introduced_before (OrderedSet.mem_of_list.1 member) (List.pairwise_pair.2 order)

/-- A comment holds the first brace, a dot stands before another, an escape before no name. -/
theorem classes_by_position_escaped :
    let text : Text := Text.ofString "/*\x7b.g*/p..b\\:c .\\é.\\\\.b/**/-.a\x7b.d\x7d"
    let selector : Text := Text.ofString "p..b\\:c .\\é.\\\\.b-.a"
    '{' ∈ Comment.strip text ∧ ¬IsPrelude selector ∧
      (classes text).toList = [['b'], ['é'], ['b', '-'], ['a']] ∧
      (∀ name, name ∈ classes text ↔ ∃ place, IntroducedAt selector place name) := by
  intro text selector
  have block : '{' ∈ Comment.strip text := by decide +kernel
  have front : (Comment.strip text).takeWhile (· != '{') = selector := by decide +kernel
  have noPrelude : ¬IsPrelude selector := by
    rw [← is_at_rule_iff]
    decide +kernel
  have named := (classes_by_position text).2.2 block (by rw [front]; exact noPrelude)
  rw [front] at named
  exact ⟨block, noPrelude, by decide +kernel, named.1⟩

end StylePurge.Selector
