import StylePurge.Proofs.JsonRoundTrip
import StylePurge.Proofs.OrderedSetMembers
import StylePurge.Proofs.TextPieces
import StylePurge.Whitelist.File

/-!
Whitelists written to a file and read again. An array keeps names of any kind and
their order. Lines keep the names that a scan can find: these are runs of name
characters, so no name is trimmed, split, or taken for a remark.
-/

namespace StylePurge

namespace Text

/-- Every text is a line of its own if a line feed follows it and none is in it. -/
theorem split_at_ended (texts : List Text) (plain : ∀ text ∈ texts, '\n' ∉ text) :
    splitAt (· == '\n') (texts.flatMap fun text => text ++ ['\n']) = texts ++ [[]] := by
  induction texts with
  | nil => rfl
  | cons text rest induction =>
      have later := induction fun other member => plain other (List.mem_cons_of_mem text member)
      have free : ∀ character ∈ text, (character == '\n') = false := by
        intro character member
        rw [beq_eq_false_iff_ne]
        rintro rfl
        exact plain text List.mem_cons_self member
      have feed : splitAt (· == '\n') ('\n' :: rest.flatMap fun text => text ++ ['\n']) =
          [] :: splitAt (· == '\n') (rest.flatMap fun text => text ++ ['\n']) :=
        split_at_separator rfl _
      have ended := split_at_append text free feed
      rw [List.flatMap_cons, List.append_assoc, List.singleton_append, ended, later,
        List.append_nil, List.cons_append]

theorem lines_ended (texts : List Text) (plain : ∀ text ∈ texts, '\n' ∉ text ∧ '\r' ∉ text) :
    lines (texts.flatMap fun text => text ++ ['\n']) = texts := by
  rw [lines, split_at_ended texts fun text member => (plain text member).1]
  simp only [List.reverse_append, List.reverse_singleton, List.singleton_append,
    List.reverse_reverse, List.isEmpty_nil, if_true, List.append_nil]
  refine (List.map_congr_left ?_).trans (List.map_id texts)
  intro text member
  split
  · rename_i reversed start
    have last : '\r' ∈ text.reverse := by
      rw [start]
      exact List.mem_cons_self
    exact absurd (List.mem_reverse.1 last) (plain text member).2
  · rfl

end Text

namespace Whitelist

/-- Lines of names are read as these names. -/
theorem of_lines_ended {names : List Text} (isName : ∀ name ∈ names, name.IsName) :
    ofLines (names.flatMap fun name => name ++ ['\n']) = .ofList names := by
  have plain : ∀ name ∈ names, '\n' ∉ name ∧ '\r' ∉ name := by
    intro name member
    exact ⟨Text.blank_not_mem (isName name member) (by decide),
      Text.blank_not_mem (isName name member) (by decide)⟩
  have trimmed : names.map Text.trim = names :=
    (List.map_congr_left fun name member => Text.trim_name (isName name member)).trans
      (List.map_id names)
  have noRemark : names.filter (fun line => line.head? != some '#') = names := by
    rw [List.filter_eq_self]
    intro name member
    rw [bne_iff_ne]
    intro sign
    exact Text.name_not_mem (isName name member) (Text.mark_not_name '#' (by decide))
      (List.mem_of_mem_head? sign)
  have single : names.flatMap Text.words = names := by
    rw [List.flatMap_congr fun name member => Text.words_name (isName name member)]
    exact List.flatMap_singleton' names
  rw [ofLines, Text.lines_ended names plain, trimmed, noRemark, single]

theorem mem_of_lines_to_lines {whitelist : Whitelist}
    (isName : ∀ name ∈ whitelist, name.IsName) (name : Text) :
    name ∈ ofLines whitelist.toLines ↔ name ∈ whitelist := by
  have sorted (name : Text) : name ∈ whitelist.sorted ↔ name ∈ whitelist := List.mem_mergeSort
  rw [toLines, of_lines_ended, OrderedSet.mem_of_list, sorted]
  intro other member
  exact isName other ((sorted other).1 member)

theorem list_of_texts (texts : List Text) :
    Json.list? Json.text? (.ofTexts texts) = some texts := by
  rw [Json.ofTexts, Json.list?]
  induction texts with
  | nil => rfl
  | cons text rest induction =>
      rw [List.map_cons, List.mapM_cons, induction]
      rfl

theorem of_json_to_json (whitelist : Whitelist) : ofJson? whitelist.toJson = some whitelist := by
  rw [ofJson?, toJson, list_of_texts, Option.map_some, OrderedSet.of_list_to_list]

theorem texts_well_formed (texts : List Text) : (Json.ofTexts texts).WellFormed := by
  rw [Json.ofTexts, Json.WellFormed]
  induction texts with
  | nil => exact trivial
  | cons text rest induction => exact ⟨trivial, induction⟩

/-- An array of names is read as the same names in the same order. -/
theorem read_json_to_json (whitelist : Whitelist) :
    readJson? (whitelist.toJson.pretty ++ ['\n']) = some whitelist := by
  have blank : ∀ character ∈ ['\n'], Json.isSpace character = true :=
    List.forall_mem_singleton.2 rfl
  have read := Json.read_pretty (texts_well_formed whitelist.toList) ['\n'] blank
  rw [readJson?, toJson, read]
  exact of_json_to_json whitelist

end Whitelist

end StylePurge
