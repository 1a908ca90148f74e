import StylePurge.Text

/-!
Where a short pattern stands in a text. Occurrence is the infix order on lists;
the executable search decides it. Comment delimiters have two characters, so the
facts about a pair are stated once for any two characters: how a pair arises at
the front of a text, and how a text is cut at its first occurrence.
-/

namespace StylePurge.Text

theorem contains_text_iff (pattern text : Text) :
    containsText pattern text = true ↔ pattern <:+: text := by
  induction text with
  | nil => rw [containsText, List.isEmpty_iff, List.infix_nil]
  | cons character rest induction =>
      rw [containsText, Bool.or_eq_true, induction, List.infix_cons_iff, startsWith,
        List.isPrefixOf_iff_prefix]

variable {first second character : Char} {text : Text}

/-- A new front character adds at most one occurrence, across the seam. -/
theorem pair_infix_cons :
    [first, second] <:+: character :: text ↔
      (first = character ∧ text.head? = some second) ∨ [first, second] <:+: text := by
  rw [List.infix_cons_iff, List.cons_prefix_cons, List.singleton_prefix_iff_head?_eq_some]

theorem pair_not_infix_nil : ¬[first, second] <:+: ([] : Text) := by
  rw [List.infix_nil]
  exact List.cons_ne_nil first [second]

theorem pair_not_infix_of_not_mem (absent : first ∉ text) : ¬[first, second] <:+: text := by
  intro found
  exact absent (found.mem List.mem_cons_self)

theorem pair_infix_reverse : [second, first] <:+: text.reverse ↔ [first, second] <:+: text := by
  rw [show [second, first] = [first, second].reverse from rfl, List.reverse_infix]

theorem pair_infix_concat :
    [first, second] <:+: text ++ [character] ↔
      [first, second] <:+: text ∨ (text.getLast? = some first ∧ second = character) := by
  rw [← pair_infix_reverse, List.reverse_append, List.reverse_singleton, List.singleton_append,
    pair_infix_cons, pair_infix_reverse, List.head?_reverse, or_comm, and_comm]

/-- The text before and the text behind the first occurrence of a pair. -/
def cutAtPair? (first second : Char) : Text → Option (Text × Text)
  | [] => none
  | character :: rest =>
      if first = character ∧ rest.head? = some second then some ([], rest.tail)
      else (cutAtPair? first second rest).map fun cut => (character :: cut.1, cut.2)

theorem cut_at_pair_some {before behind : Text}
    (cut : cutAtPair? first second text = some (before, behind)) :
    text = before ++ first :: second :: behind ∧ ¬[first, second] <:+: before := by
  induction text generalizing before with
  | nil => exact nomatch cut
  | cons character rest induction =>
      rw [cutAtPair?] at cut
      by_cases front : first = character ∧ rest.head? = some second
      · rw [if_pos front, Option.some.injEq, Prod.mk.injEq] at cut
        obtain ⟨rfl, rfl⟩ := cut
        obtain ⟨rfl, head⟩ := front
        obtain ⟨after, rfl⟩ := List.head?_eq_some_iff.1 head
        exact ⟨rfl, pair_not_infix_nil⟩
      · rw [if_neg front, Option.map_eq_some_iff] at cut
        obtain ⟨⟨later, after⟩, found, same⟩ := cut
        obtain ⟨rfl, rfl⟩ := Prod.mk.inj same
        obtain ⟨shape, earlier⟩ := induction found
        refine ⟨congrArg (character :: ·) shape, ?_⟩
        rw [pair_infix_cons]
        rintro (⟨starts, head⟩ | inside)
        · -- a pair across the front of `before` would already be the first one of the text
          obtain ⟨further, rfl⟩ := List.head?_eq_some_iff.1 head
          exact front ⟨starts, by rw [shape]; rfl⟩
        · exact earlier inside

theorem cut_at_pair_none (cut : cutAtPair? first second text = none) :
    ¬[first, second] <:+: text := by
  induction text with
  | nil => exact pair_not_infix_nil
  | cons character rest induction =>
      rw [cutAtPair?] at cut
      by_cases front : first = character ∧ rest.head? = some second
      · rw [if_pos front] at cut
        exact nomatch cut
      · rw [if_neg front, Option.map_eq_none_iff] at cut
        rw [pair_infix_cons, not_or]
        exact ⟨front, induction cut⟩

/-- A text that holds a pair is cut at the first occurrence of it. -/
theorem exists_first_pair (found : [first, second] <:+: text) :
    ∃ before after, text = before ++ first :: second :: after ∧
      ¬[first, second] <:+: before := by
  cases cut : cutAtPair? first second text with
  | none => exact absurd found (cut_at_pair_none cut)
  | some parts => exact ⟨parts.1, parts.2, cut_at_pair_some cut⟩

end StylePurge.Text
