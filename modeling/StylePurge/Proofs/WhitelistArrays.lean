import StylePurge.Proofs.FirstAppearance
import StylePurge.Proofs.JsonSpelling
import StylePurge.Proofs.Stages
import StylePurge.Proofs.TextEncoding
import StylePurge.Proofs.WhitelistFile

/-!
Whitelists as arrays. Any written form of an array of names is read as its distinct names in
order of first appearance, and both layouts of a whitelist are such forms, so they are read
as the whitelist itself.
-/

namespace StylePurge.Whitelist

variable {names : List Text} {content : Text} {whitelist : Whitelist} {tree : FileTree}
  {path : Path}

/-- Repeated names and the way names are spelled do not matter. -/
theorem read_json_array (writes : Json.WritesArray names content) :
    readJson? content = some (.ofList names) := by
  rw [readJson?, Json.read_array writes, Option.bind_some, ofJson?, list_of_texts, Option.map_some]

theorem load_json (json : isJsonPath path = true)
    (held : tree.readBytes path = .ok (Text.encode content))
    (read : readJson? content = some whitelist) : load tree path = .ok whitelist := by
  have text : tree.readText path = .ok content := by
    rw [FileTree.readText, bind_eq_ok]
    exact ⟨Text.encode content, held, by rw [Text.decode_encode]⟩
  rw [load, text]
  dsimp only
  rw [if_pos json, read]
  rfl

/-- A whitelist is read back from either layout, from a text as from a file, and any array of
names is read as the distinct names in order of first appearance. -/
theorem array_round_trip :
    (∀ (whitelist : Whitelist) (content : Text),
      content = whitelist.toJson.compact ∨ content = whitelist.toJson.pretty →
        readJson? content = some whitelist ∧
        ∀ (tree : FileTree) (path : Path), isJsonPath path = true →
          tree.readBytes path = .ok (Text.encode content) → load tree path = .ok whitelist) ∧
    ∀ (names : List Text) (content : Text), Json.WritesArray names content →
      ∃ whitelist, readJson? content = some whitelist ∧
        (∀ name, name ∈ whitelist ↔ name ∈ names) ∧
        OrderedSet.ByFirstPlace names whitelist.toList := by
  constructor
  · intro whitelist content layout
    have writes : Json.WritesArray whitelist.toList content := by
      rcases layout with rfl | rfl
      · exact Json.writes_array_compact whitelist.toList
      · exact Json.writes_array_pretty whitelist.toList
    have read : readJson? content = some whitelist := by
      rw [read_json_array writes, OrderedSet.of_list_to_list]
    exact ⟨read, fun tree path json held => load_json json held read⟩
  · intro names content writes
    exact ⟨.ofList names, read_json_array writes, fun name => OrderedSet.mem_of_list,
      OrderedSet.of_list_by_first_place names⟩

theorem array_round_trip_escaped :
    let tree : FileTree :=
      ⟨[['w']], [([['w']], .directory), ([['w'], ['k', '.', 'j', 's', 'o', 'n']], .file 0)],
        [Text.encode ['[', '"', '😀', '"', ',', '"', '\\', '"', '"', ']']]⟩
    load tree ⟨['k', '.', 'j', 's', 'o', 'n']⟩ = .ok (.ofList [['😀'], ['"']]) ∧
      ∃ whitelist,
        readJson? (['[', '"', '\\', 'u', 'd', '8', '3', 'd', '\\', 'u', 'D', 'E', '0', '0', '"',
          ',', '"', '\\', '"', '"', ' ', ',', '"', '😀', '"', ']']) = some whitelist ∧
        (∀ name, name ∈ whitelist ↔ name ∈ [['😀'], ['"'], ['😀']]) ∧
        OrderedSet.ByFirstPlace [['😀'], ['"'], ['😀']] whitelist.toList := by
  intro tree
  have loads := (array_round_trip.1 (.ofList [['😀'], ['"']])
    ['[', '"', '😀', '"', ',', '"', '\\', '"', '"', ']'] (.inl (by decide +kernel))).2
  have high : Json.WritesUnit (((13 * 16 + 8) * 16 + 3) * 16 + 13) ['d', '8', '3', 'd'] :=
    .digits (@Json.HexDigit.small 13 (by decide)) (@Json.HexDigit.small 8 (by decide))
      (@Json.HexDigit.small 3 (by decide)) (@Json.HexDigit.small 13 (by decide))
  have low : Json.WritesUnit (((13 * 16 + 14) * 16 + 0) * 16 + 0) ['D', 'E', '0', '0'] :=
    .digits (@Json.HexDigit.capital 13 (by decide)) (@Json.HexDigit.capital 14 (by decide))
      (@Json.HexDigit.small 0 (by decide)) (@Json.HexDigit.small 0 (by decide))
  have smile : Json.WritesText ['😀']
      ['\\', 'u', 'd', '8', '3', 'd', '\\', 'u', 'D', 'E', '0', '0'] :=
    .cons (.pair high low (by decide) (by decide) (by decide)) .nil
  have mark : Json.WritesText ['"'] ['\\', '"'] := .cons (.letter (by decide)) .nil
  have plain : Json.WritesText ['😀'] ['😀'] :=
    .cons (.plain (by decide) (by decide) (by decide)) .nil
  have gap : Json.Blank [' '] := List.forall_mem_singleton.2 rfl
  have items := Json.WritesItems.more Json.blank_nil smile Json.blank_nil
    (.more Json.blank_nil mark gap
      (.last Json.blank_nil plain Json.blank_nil))
  refine ⟨loads tree _ (by decide +kernel) (to_option_eq_some.1 (by decide +kernel)), ?_⟩
  exact array_round_trip.2 _ _ (.items Json.blank_nil items Json.blank_nil)

end StylePurge.Whitelist
