import StylePurge.Json.Reader
import StylePurge.Proofs.JsonWords

/-!
Reading a printed document gives the document back. Printing writes the words of a
document with blank space between them, and the stack of the reader, given the words of
a document, ends up with that document and everything below it untouched.
-/

namespace StylePurge.Json

mutual

/-- The words of a document, whatever the layout. -/
def words : Json → List Token
  | .scalar atom => [.scalar atom]
  | .array items => .openArray :: (itemWords items ++ [.closeArray])
  | .object members => .openObject :: (memberWords members ++ [.closeObject])

def itemWords : List Json → List Token
  | [] => []
  | [item] => words item
  | item :: next :: items => words item ++ .comma :: itemWords (next :: items)

def memberWords : List (Literal × Json) → List Token
  | [] => []
  | [(key, value)] => .scalar (.string key) :: .colon :: words value
  | (key, value) :: next :: members =>
      .scalar (.string key) :: .colon :: (words value ++ .comma :: memberWords (next :: members))

end

mutual

/-- Every number in the document is written as a number. -/
def WellFormed : Json → Prop
  | .scalar atom => atom.WellFormed
  | .array items => ItemsWellFormed items
  | .object members => MembersWellFormed members

def ItemsWellFormed : List Json → Prop
  | [] => True
  | item :: items => WellFormed item ∧ ItemsWellFormed items

def MembersWellFormed : List (Literal × Json) → Prop
  | [] => True
  | (_, value) :: members => WellFormed value ∧ MembersWellFormed members

end

section Layout

/-- The text falls into these words, and what follows it into its own, unless it runs on. -/
def Spells (text : Text) (words : List Token) : Prop :=
  ∀ rest, Apart rest → tokens? (text ++ rest) = (tokens? rest).map (words ++ ·)

variable {text first second : Text} {words firstWords secondWords : List Token}
variable {character : Char} {token : Token}

theorem apart_append {rest : Text} (front : Apart text) (behind : Apart rest) :
    Apart (text ++ rest) := by
  cases text with
  | nil => exact behind
  | cons character others => exact apart_cons (front character rfl)

theorem spells_nil : Spells [] [] := by
  intro rest _
  simp

theorem spells_append (front : Spells first firstWords) (behind : Spells second secondWords)
    (apart : Apart second) : Spells (first ++ second) (firstWords ++ secondWords) := by
  intro rest restApart
  rw [List.append_assoc, front (second ++ rest) (apart_append apart restApart),
    behind rest restApart, Option.map_map]
  congr 1
  funext later
  simp

theorem spells_space (space : isSpace character = true) (spells : Spells text words) :
    Spells (character :: text) words := by
  intro rest apart
  rw [List.cons_append, words_of_space space, spells rest apart]

theorem spells_punctuation (known : punctuation? character = some token)
    (spells : Spells text words) : Spells (character :: text) (token :: words) := by
  intro rest apart
  rw [List.cons_append, words_of_punctuation known, spells rest apart, Option.map_map]
  rfl

theorem spells_literal (literal : Literal) (spells : Spells text words) :
    Spells (literalText literal ++ text) (.scalar (.string literal) :: words) := by
  intro rest apart
  rw [List.append_assoc, words_of_literal, spells rest apart, Option.map_map]
  rfl

theorem spells_scalar {atom : Scalar} (wellFormed : atom.WellFormed) :
    Spells (scalarText atom) [.scalar atom] := by
  intro rest apart
  exact words_of_scalar wellFormed apart

theorem spells_spaces (count : Nat) (spells : Spells text words) :
    Spells (List.replicate count ' ' ++ text) words := by
  induction count with
  | zero => exact spells
  | succ count induction => exact spells_space rfl induction

theorem spells_new_line (level : Nat) (spells : Spells text words) :
    Spells (newLine level ++ text) words :=
  spells_space rfl (spells_spaces (2 * level) spells)

theorem spells_separated (front : Spells first firstWords) (behind : Spells second secondWords) :
    Spells (first ++ ',' :: second) (firstWords ++ .comma :: secondWords) :=
  spells_append front (spells_punctuation rfl behind) (apart_cons rfl)

theorem spells_named (key : Literal) (spells : Spells text words) :
    Spells (literalText key ++ ':' :: ' ' :: text) (.scalar (.string key) :: .colon :: words) :=
  spells_literal key (spells_punctuation rfl (spells_space rfl spells))

theorem spells_enclosed {opening closing : Char} {openWord closeWord : Token}
    (opens : punctuation? opening = some openWord) (closes : punctuation? closing = some closeWord)
    (spells : Spells text words) (level : Nat) :
    Spells (opening :: (text ++ (newLine level ++ [closing])))
      (openWord :: (words ++ [closeWord])) := by
  have ending : Spells (newLine level ++ [closing]) [closeWord] :=
    spells_new_line level (spells_punctuation closes spells_nil)
  apply spells_punctuation opens
  exact spells_append spells ending (apart_cons rfl)

mutual

theorem pretty_spells (document : Json) (wellFormed : document.WellFormed) (level : Nat) :
    Spells (prettyAt level document) document.words := by
  match document with
  | .scalar atom => exact spells_scalar wellFormed
  | .array [] => exact spells_punctuation rfl (spells_punctuation rfl spells_nil)
  | .array (item :: items) =>
      have inside := items_spell (item :: items) wellFormed (level + 1)
      simpa [prettyAt, Json.words] using spells_enclosed rfl rfl inside level
  | .object [] => exact spells_punctuation rfl (spells_punctuation rfl spells_nil)
  | .object (member :: members) =>
      have inside := members_spell (member :: members) wellFormed (level + 1)
      simpa [prettyAt, Json.words] using spells_enclosed rfl rfl inside level

theorem items_spell (items : List Json) (wellFormed : ItemsWellFormed items) (level : Nat) :
    Spells (prettyItems level items) (itemWords items) := by
  match items with
  | [] => exact spells_nil
  | [item] => exact spells_new_line level (pretty_spells item wellFormed.1 level)
  | item :: next :: items =>
      have here := pretty_spells item wellFormed.1 level
      have later := items_spell (next :: items) wellFormed.2 level
      have line := spells_new_line level (spells_separated here later)
      simpa [prettyItems, itemWords] using line

theorem members_spell (members : List (Literal × Json)) (wellFormed : MembersWellFormed members)
    (level : Nat) : Spells (prettyMembers level members) (memberWords members) := by
  match members with
  | [] => exact spells_nil
  | [(key, value)] =>
      have here := pretty_spells value wellFormed.1 level
      have line := spells_new_line level (spells_named key here)
      simpa [prettyMembers, memberWords] using line
  | (key, value) :: next :: members =>
      have here := pretty_spells value wellFormed.1 level
      have later := members_spell (next :: members) wellFormed.2 level
      have line := spells_new_line level (spells_named key (spells_separated here later))
      simpa [prettyMembers, memberWords] using line

end

end Layout

section Machine

/-- The words of a document start with no closing bracket. -/
theorem words_start (document : Json) :
    ∃ first rest, document.words = first :: rest ∧ first ≠ .closeArray := by
  cases document with
  | scalar atom =>
      rw [words]
      exact ⟨_, _, rfl, nofun⟩
  | array items =>
      rw [words]
      exact ⟨_, _, rfl, nofun⟩
  | object members =>
      rw [words]
      exact ⟨_, _, rfl, nofun⟩

theorem item_words_start (item : Json) (items : List Json) :
    ∃ first rest, itemWords (item :: items) = first :: rest ∧ first ≠ .closeArray := by
  obtain ⟨first, rest, start, other⟩ := words_start item
  cases items with
  | nil => exact ⟨first, rest, by rw [itemWords, start], other⟩
  | cons next items =>
      refine ⟨first, rest ++ .comma :: itemWords (next :: items), ?_, other⟩
      rw [itemWords, start, List.cons_append]

theorem step_first_item {first : Token} (frames : List Frame) (other : first ≠ .closeArray) :
    Machine.step ⟨frames, .firstItem⟩ first = Machine.step ⟨.array [] :: frames, .value⟩ first := by
  cases first with
  | closeArray => exact absurd rfl other
  | openArray => rfl
  | openObject => rfl
  | closeObject => rfl
  | comma => rfl
  | colon => rfl
  | scalar atom => rfl

/-- The first words of an array may be read as if items had been there before. -/
theorem run_first_item (item : Json) (items : List Json) (frames : List Frame)
    (behind : List Token) :
    (itemWords (item :: items) ++ behind).foldlM Machine.step ⟨frames, .firstItem⟩ =
      (itemWords (item :: items) ++ behind).foldlM Machine.step ⟨.array [] :: frames, .value⟩ := by
  obtain ⟨first, rest, start, other⟩ := item_words_start item items
  rw [start, List.cons_append, List.foldlM_cons, List.foldlM_cons, step_first_item frames other]

theorem run_first_key (member : Literal × Json) (members : List (Literal × Json))
    (frames : List Frame) (behind : List Token) :
    (memberWords (member :: members) ++ behind).foldlM Machine.step ⟨frames, .firstKey⟩ =
      (memberWords (member :: members) ++ behind).foldlM Machine.step ⟨frames, .key []⟩ := by
  obtain ⟨key, value⟩ := member
  cases members with
  | nil =>
      rw [memberWords]
      rfl
  | cons next members =>
      rw [memberWords]
      rfl

theorem run_named (key : Literal) (earlier : List (Literal × Json)) (frames : List Frame)
    (behind : List Token) :
    (.scalar (.string key) :: .colon :: behind).foldlM Machine.step ⟨frames, .key earlier⟩ =
      behind.foldlM Machine.step ⟨.member earlier key :: frames, .value⟩ := rfl

-- By recursion on the document, for any stack of frames. The items and members that were
-- read before stand in the topmost frame in reverse, hence the `earlier`.
mutual

theorem run_words (document : Json) (frames : List Frame) :
    document.words.foldlM Machine.step ⟨frames, .value⟩ = some ⟨frames, .done document⟩ := by
  match document with
  | .scalar atom => rfl
  | .array [] => rfl
  | .array (item :: items) =>
      have inside := run_items (item :: items) (List.cons_ne_nil item items) [] frames
      rw [← run_first_item] at inside
      exact inside
  | .object [] => rfl
  | .object (member :: members) =>
      have inside := run_members (member :: members) (List.cons_ne_nil member members) [] frames
      rw [← run_first_key] at inside
      exact inside

theorem run_items (items : List Json) (nonempty : items ≠ []) (earlier : List Json)
    (frames : List Frame) :
    (itemWords items ++ [Token.closeArray]).foldlM Machine.step ⟨.array earlier :: frames, .value⟩ =
      some ⟨frames, .done (.array (earlier.reverse ++ items))⟩ := by
  match items with
  | [] => exact absurd rfl nonempty
  | [item] =>
      have here := run_words item (.array earlier :: frames)
      rw [itemWords, List.foldlM_append, here, ← List.reverse_cons]
      rfl
  | item :: next :: items =>
      have here := run_words item (.array earlier :: frames)
      have later := run_items (next :: items) (List.cons_ne_nil next items) (item :: earlier) frames
      rw [List.reverse_cons, List.append_assoc] at later
      rw [itemWords, List.append_assoc, List.foldlM_append, here]
      exact later

theorem run_members (members : List (Literal × Json)) (nonempty : members ≠ [])
    (earlier : List (Literal × Json)) (frames : List Frame) :
    (memberWords members ++ [Token.closeObject]).foldlM Machine.step ⟨frames, .key earlier⟩ =
      some ⟨frames, .done (.object (earlier.reverse ++ members))⟩ := by
  match members with
  | [] => exact absurd rfl nonempty
  | [(key, value)] =>
      have here := run_words value (.member earlier key :: frames)
      rw [memberWords, List.cons_append, List.cons_append, run_named, List.foldlM_append, here,
        ← List.reverse_cons]
      rfl
  | (key, value) :: next :: members =>
      have here := run_words value (.member earlier key :: frames)
      have later := run_members (next :: members) (List.cons_ne_nil next members)
        ((key, value) :: earlier) frames
      rw [List.reverse_cons, List.append_assoc] at later
      rw [memberWords, List.cons_append, List.cons_append, run_named, List.append_assoc,
        List.foldlM_append, here]
      exact later

end

theorem of_tokens_words (document : Json) : ofTokens? document.words = some document := by
  rw [ofTokens?, Machine.start, run_words]
  rfl

end Machine

theorem words_of_spaces {spaces : Text} (blank : ∀ character ∈ spaces, isSpace character = true) :
    tokens? spaces = some [] := by
  induction spaces with
  | nil => rw [tokens?]
  | cons character rest induction =>
      rw [words_of_space (blank character List.mem_cons_self)]
      exact induction fun other member => blank other (List.mem_cons_of_mem character member)

/-- A well-formed document is read back from its printed form, blank space behind it
or not. -/
theorem read_pretty {document : Json} (wellFormed : document.WellFormed) (spaces : Text)
    (blank : ∀ character ∈ spaces, isSpace character = true) :
    read? (document.pretty ++ spaces) = some document := by
  have apart : Apart spaces := by
    intro character first
    have space := blank character (List.mem_of_mem_head? first)
    rw [Bool.eq_false_iff]
    intro bare
    rw [(bare_character bare).1] at space
    exact nomatch space
  rw [read?, pretty, pretty_spells document wellFormed 0 spaces apart, words_of_spaces blank]
  simp only [Option.map_some, List.append_nil, Option.bind_some, of_tokens_words]

end StylePurge.Json
