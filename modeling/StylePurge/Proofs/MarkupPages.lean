import StylePurge.Proofs.FirstAppearance
import StylePurge.Proofs.MarkupNames
import StylePurge.Whitelist

/-!
Markup page by page. No attribute reaches across a line feed, and none begins on one side
of it because of what stands on the other, so the pages of a document can be scanned one
at a time. Names come page after page, each where it first appears.
-/

namespace StylePurge

namespace Markup

theorem line_feed_not_value : isValueCharacter '\n' = false := by
  have unnamed : Text.isNameCharacter '\n' = false := by
    rw [Bool.eq_false_iff]
    intro named
    have blank := Text.name_character_not_blank '\n' named
    exact absurd blank (by decide)
  rw [isValueCharacter, unnamed]
  rfl

theorem value_append_line (text rest : Text) :
    value? (text ++ '\n' :: rest) =
      (value? text).map fun found => (found.1, found.2 ++ '\n' :: rest) := by
  rw [value?, value?, Text.drop_while_stop line_feed_not_value,
    Text.take_while_stop line_feed_not_value]
  cases behind : text.dropWhile isValueCharacter with
  | nil => simp
  | cons character after =>
      by_cases quote : character = '"'
      · subst quote
        by_cases empty : (text.takeWhile isValueCharacter).isEmpty = true
        · simp [empty]
        · simp [empty]
      · simp [quote]

theorem opening_append_line (text rest : Text) :
    opening <+: text ++ '\n' :: rest ↔ opening <+: text := by
  have lineFree : '\n' ∉ opening := by decide
  constructor
  · intro starts
    have whole : text ++ ['\n'] <+: text ++ '\n' :: rest := ⟨rest, by simp⟩
    rcases List.prefix_or_prefix_of_prefix starts whole with within | beyond
    · rcases List.prefix_concat_iff.1 within with same | inside
      · exact absurd (by simp [same]) lineFree
      · exact inside
    · exact absurd (beyond.mem (by simp)) lineFree
  · intro starts
    exact starts.trans (List.prefix_append text _)

theorem attribute_append_line (text rest : Text) :
    attribute? (text ++ '\n' :: rest) =
      (attribute? text).map fun found => (found.1, found.2 ++ '\n' :: rest) := by
  rw [attribute?, attribute?, Text.startsWith, Text.startsWith]
  by_cases starts : opening <+: text
  · have here := List.isPrefixOf_iff_prefix.2 starts
    have there := List.isPrefixOf_iff_prefix.2 ((opening_append_line text rest).2 starts)
    rw [if_pos here, if_pos there, List.drop_append_of_le_length starts.length_le,
      value_append_line]
  · have here : ¬opening.isPrefixOf text = true := mt List.isPrefixOf_iff_prefix.1 starts
    have there : ¬opening.isPrefixOf (text ++ '\n' :: rest) = true := fun found =>
      starts ((opening_append_line text rest).1 (List.isPrefixOf_iff_prefix.1 found))
    rw [if_neg here, if_neg there]
    rfl

theorem attribute_values_line (rest : Text) :
    attributeValues ('\n' :: rest) = attributeValues rest := by
  apply attribute_values_none
  rw [attribute?, if_neg]
  simp [Text.startsWith, opening]

/-- The attributes of a text with a line feed in it are those in front of the line feed and
those behind it. -/
theorem attribute_values_append_line (text rest : Text) :
    attributeValues (text ++ '\n' :: rest) = attributeValues text ++ attributeValues rest := by
  induction text using attributeValues.induct with
  | case1 =>
      rw [List.nil_append, attribute_values_line, attributeValues]
      rfl
  | case2 character text value behind found shorter induction =>
      have across := attribute_append_line (character :: text) rest
      rw [found, List.cons_append] at across
      rw [List.cons_append, attribute_values_some across, attribute_values_some found, induction]
      rfl
  | case3 character text missing induction =>
      have across := attribute_append_line (character :: text) rest
      rw [missing, List.cons_append] at across
      rw [List.cons_append, attribute_values_none across, attribute_values_none missing, induction]

theorem attribute_values_pages (pages : List Text) :
    attributeValues (Text.joinWith ['\n'] pages) = pages.flatMap attributeValues := by
  induction pages with
  | nil =>
      rw [Text.joinWith, attributeValues]
      rfl
  | cons page pages induction =>
      cases pages with
      | nil => simp [Text.joinWith]
      | cons next later =>
          rw [Text.joinWith, List.append_assoc, List.singleton_append,
            attribute_values_append_line, induction]
          · rfl
          · exact List.cons_ne_nil next later

end Markup

namespace Whitelist

/-- Adding page after page adds the names of all pages in a row. -/
theorem add_pages (whitelist : Whitelist) (pages : List Text) :
    pages.foldl addMarkup whitelist =
      whitelist.insertAll
        (pages.flatMap fun page => (Markup.attributeValues page).flatMap Markup.valueNames) := by
  induction pages generalizing whitelist with
  | nil => rfl
  | cons page pages induction =>
      rw [List.foldl_cons, induction, List.flatMap_cons, OrderedSet.insert_all_append, addMarkup,
        Markup.classes, OrderedSet.union_of_list]

/-- Page after page gives the names of the one document that the pages make up. -/
theorem add_pages_eq_classes (pages : List Text) :
    pages.foldl addMarkup .empty = Markup.classes (Text.joinWith ['\n'] pages) := by
  rw [add_pages, Markup.classes, Markup.attribute_values_pages, List.flatMap_assoc]
  rfl

end Whitelist

end StylePurge
