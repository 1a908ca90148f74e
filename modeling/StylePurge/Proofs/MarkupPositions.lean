import Mathlib.Tactic.IntervalCases
import StylePurge.Proofs.FirstAppearance
import StylePurge.Proofs.MarkupNames

/-!
Class names by position. Markup names a class wherever an attribute opens, a value of
allowed characters follows and a quote closes it; the names are what spaces and colons
leave of the value. The scan from left to right jumps over each attribute that it finds and
goes on one character behind where it finds none. No attribute opens inside another one,
so it misses none. The classes are the names that stand anywhere, in the order in which
they first come.
-/

namespace StylePurge

namespace Text

variable {isSeparator : Char → Bool}

/-- Between separators, or an end of the text and a separator, this word stands at this place. -/
structure WordAt (isSeparator : Char → Bool) (text : Text) (place : Nat) (word : Text) : Prop where
  stands : word <+: text.drop place
  nonempty : word ≠ []
  free : ∀ character ∈ word, isSeparator character = false
  opens : ∀ before, (text.take place).getLast? = some before → isSeparator before = true
  ends : ∀ after, (text.drop (place + word.length)).head? = some after → isSeparator after = true

/-- The words of a text with their places. `fresh` says that a word may begin at the front. -/
def placedWords (isSeparator : Char → Bool) (place : Nat) (fresh : Bool) : Text → List (Nat × Text)
  | [] => []
  | character :: rest =>
      (if fresh && !isSeparator character then
          [(place, (character :: rest).takeWhile (!isSeparator ·))]
        else []) ++
        placedWords isSeparator (place + 1) (isSeparator character) rest

/-- The front up to the first separator is the one front without separators that is not
continued. -/
theorem front_word_iff {text word : Text} :
    (word <+: text ∧ (∀ character ∈ word, isSeparator character = false) ∧
        ∀ after, (text.drop word.length).head? = some after → isSeparator after = true) ↔
      word = text.takeWhile (!isSeparator ·) := by
  constructor
  · rintro ⟨⟨behind, rfl⟩, free, ends⟩
    rw [List.drop_left] at ends
    rw [List.takeWhile_append_of_pos fun character member => by rw [free character member]; rfl]
    cases behind with
    | nil => rw [List.takeWhile_nil, List.append_nil]
    | cons next rest =>
        rw [List.takeWhile_cons_of_neg, List.append_nil]
        rw [ends next rfl]
        decide
  · rintro rfl
    refine ⟨List.takeWhile_prefix _, fun character member => ?_, fun after next => ?_⟩
    · simpa using List.all_eq_true.1 List.all_takeWhile character member
    · have behind : text.drop (text.takeWhile (!isSeparator ·)).length =
          text.dropWhile (!isSeparator ·) := by
        have parts : text.takeWhile (!isSeparator ·) ++ text.dropWhile (!isSeparator ·) = text :=
          List.takeWhile_append_dropWhile
        exact (congrArg (List.drop _) parts.symm).trans List.drop_left
      have stops := List.head?_dropWhile_not (!isSeparator ·) text
      rw [← behind, next] at stops
      simpa using stops

theorem word_at_front {front text word : Text} :
    WordAt isSeparator (front ++ text) front.length word ↔
      front.getLast?.all isSeparator = true ∧ word ≠ [] ∧ word = text.takeWhile (!isSeparator ·) := by
  have opening : front.getLast?.all isSeparator = true ↔
      ∀ before, front.getLast? = some before → isSeparator before = true := by
    cases front.getLast? with
    | none => simp
    | some before => simp
  rw [opening, ← front_word_iff]
  constructor
  · rintro ⟨stands, nonempty, free, opens, ends⟩
    rw [List.drop_left] at stands
    rw [List.take_left] at opens
    rw [List.drop_length_add_append] at ends
    exact ⟨opens, nonempty, stands, free, ends⟩
  · rintro ⟨opens, nonempty, stands, free, ends⟩
    refine ⟨?_, nonempty, free, ?_, ?_⟩
    · rwa [List.drop_left]
    · rwa [List.take_left]
    · rwa [List.drop_length_add_append]

theorem mem_placed_words {front rest word : Text} {start place : Nat} :
    (place, word) ∈ placedWords isSeparator (start + front.length)
        (front.getLast?.all isSeparator) rest ↔
      ∃ within, place = start + within ∧ front.length ≤ within ∧
        WordAt isSeparator (front ++ rest) within word := by
  induction rest generalizing front with
  | nil =>
      constructor
      · exact fun member => absurd member List.not_mem_nil
      · rintro ⟨within, _, beyond, word⟩
        have nothing := word.stands
        rw [List.append_nil, List.drop_of_length_le beyond, List.prefix_nil] at nothing
        exact absurd nothing word.nonempty
  | cons character rest induction =>
      have here : (place, word) ∈
            (if front.getLast?.all isSeparator && !isSeparator character then
              [(start + front.length, (character :: rest).takeWhile (!isSeparator ·))]
            else []) ↔
          place = start + front.length ∧
            WordAt isSeparator (front ++ character :: rest) front.length word := by
        rw [word_at_front]
        by_cases separates : isSeparator character = true
        · simp [separates]
        · rw [Bool.not_eq_true] at separates
          by_cases opens : front.getLast?.all isSeparator = true
          · simp [separates, opens]
            grind
          · simp [opens]
      have later := @induction (front ++ [character])
      rw [List.length_append, List.length_singleton, List.getLast?_concat, Option.all_some,
        List.append_assoc, List.singleton_append, ← Nat.add_assoc] at later
      rw [placedWords, List.mem_append, here, later]
      constructor
      · rintro (⟨rfl, word⟩ | ⟨within, rfl, beyond, word⟩)
        · exact ⟨front.length, rfl, Nat.le_refl _, word⟩
        · exact ⟨within, rfl, Nat.le_of_succ_le beyond, word⟩
      · rintro ⟨within, rfl, beyond, word⟩
        rcases Nat.eq_or_lt_of_le beyond with rfl | further
        · exact .inl ⟨rfl, word⟩
        · exact .inr ⟨within, rfl, further, word⟩

theorem mem_placed_words_whole {text word : Text} {start place : Nat} :
    (place, word) ∈ placedWords isSeparator start true text ↔
      ∃ within, place = start + within ∧ WordAt isSeparator text within word := by
  have placed := @mem_placed_words isSeparator [] text word start place
  simpa using placed

theorem words_by_eq (start : Nat) (text : Text) :
    (placedWords isSeparator start true text).map Prod.snd = wordsBy isSeparator text := by
  have parts : ∀ start, ∃ pieces,
      splitAt isSeparator text = text.takeWhile (!isSeparator ·) :: pieces ∧
      ∀ fresh, (placedWords isSeparator start fresh text).map Prod.snd =
        (if fresh then text.takeWhile (!isSeparator ·) :: pieces else pieces).filter
          fun piece => !piece.isEmpty := by
    induction text with
    | nil => exact fun _ => ⟨[], rfl, by rintro (_ | _) <;> rfl⟩
    | cons character rest induction =>
        intro start
        obtain ⟨pieces, split, placed⟩ := induction (start + 1)
        cases separates : isSeparator character with
        | true =>
            refine ⟨splitAt isSeparator rest, ?_, fun fresh => ?_⟩
            · rw [split_at_separator separates, List.takeWhile_cons_of_neg (by simp [separates])]
            · rw [placedWords, separates, split]
              cases fresh <;> simp [placed, separates]
        | false =>
            refine ⟨pieces, ?_, fun fresh => ?_⟩
            · rw [split_at_member separates split,
                List.takeWhile_cons_of_pos (by simp [separates])]
            · rw [placedWords, separates]
              cases fresh <;> simp [placed, separates]
  obtain ⟨pieces, split, placed⟩ := parts start
  rw [placed true, wordsBy, split]
  rfl

theorem placed_words_ascending (start : Nat) (fresh : Bool) (text : Text) :
    (placedWords isSeparator start fresh text).Pairwise fun one other => one.1 < other.1 := by
  have behind (start : Nat) (fresh : Bool) (text : Text) :
      ∀ found ∈ placedWords isSeparator start fresh text, start ≤ found.1 := by
    induction text generalizing start fresh with
    | nil => exact fun found member => absurd member List.not_mem_nil
    | cons character rest induction =>
        intro found member
        rcases List.mem_append.1 member with here | later
        · have same : found.1 = start := by
            split at here
            · rw [List.mem_singleton.1 here]
            · exact absurd here List.not_mem_nil
          exact Nat.le_of_eq same.symm
        · exact Nat.le_of_succ_le (induction _ _ found later)
  induction text generalizing start fresh with
  | nil => exact .nil
  | cons character rest induction =>
      have front : start < start + 1 := Nat.lt_succ_self start
      rw [placedWords]
      split
      · exact List.pairwise_cons.2
          ⟨fun other later => Nat.lt_of_lt_of_le front (behind _ _ _ other later), induction _ _⟩
      · exact induction _ _

end Text

namespace Markup

/-- An attribute opens at this place of the markup, and between its quotes stands this value. -/
structure ValueAt (markup : Text) (place : Nat) (value : Text) : Prop where
  quoted : opening ++ (value ++ ['"']) <+: markup.drop place
  nonempty : value ≠ []
  characters : ∀ character ∈ value, isValueCharacter character = true

/-- A name stands at this place of the markup: it is one of the words between the spaces and
colons of a value. -/
def NamedAt (markup : Text) (place : Nat) (name : Text) : Prop :=
  ∃ opens value within, ValueAt markup opens value ∧ Text.WordAt isNameEnd value within name ∧
    place = opens + opening.length + within

/-- The first place of one name is in front of every place of the other. -/
def NamedBefore (markup earlier later : Text) : Prop :=
  ∃ place, NamedAt markup place earlier ∧ ∀ other, NamedAt markup other later → place < other

theorem mark_not_value (mark : Char) (listed : mark ∈ ['"', '=']) :
    isValueCharacter mark = false := by
  have none : ['"', '='].any isValueCharacter = false := by decide +kernel
  exact Bool.eq_false_iff.2 (List.any_eq_false.1 none mark listed)

theorem attribute_eq_some_iff {text value behind : Text} :
    attribute? text = some (value, behind) ↔
      text = opening ++ (value ++ '"' :: behind) ∧ value ≠ [] ∧
        ∀ character ∈ value, isValueCharacter character = true := by
  have quote := mark_not_value '"' (by decide)
  constructor
  · intro found
    have characters := attribute_characters found
    rw [attribute?, Text.startsWith, Option.ite_none_right_eq_some,
      List.isPrefixOf_iff_prefix] at found
    obtain ⟨⟨rest, rfl⟩, found⟩ := found
    rw [List.drop_left, value?] at found
    split at found
    · rename_i after equation
      simp only [Option.ite_none_left_eq_some, Option.some.injEq, Prod.mk.injEq] at found
      obtain ⟨nonempty, rfl, rfl⟩ := found
      refine ⟨?_, by simpa using nonempty, characters⟩
      rw [← equation, List.takeWhile_append_dropWhile]
    · exact nomatch found
  · rintro ⟨rfl, nonempty, characters⟩
    have starts : Text.startsWith (opening ++ (value ++ '"' :: behind)) opening = true :=
      List.isPrefixOf_iff_prefix.2 (List.prefix_append _ _)
    rw [attribute?, if_pos starts, List.drop_left, value?,
      List.dropWhile_append_of_pos characters, List.takeWhile_append_of_pos characters,
      List.dropWhile_cons_of_neg (by rw [quote]; decide),
      List.takeWhile_cons_of_neg (by rw [quote]; decide), List.append_nil]
    simp [nonempty]

theorem value_at_front_iff {text value : Text} :
    ValueAt text 0 value ↔ ∃ behind, attribute? text = some (value, behind) := by
  simp only [attribute_eq_some_iff]
  constructor
  · rintro ⟨⟨behind, rest⟩, nonempty, characters⟩
    refine ⟨behind, ?_, nonempty, characters⟩
    rw [List.drop_zero] at rest
    rw [← rest, List.append_assoc, List.append_assoc, List.singleton_append]
  · rintro ⟨behind, rfl, nonempty, characters⟩
    refine ⟨⟨behind, ?_⟩, nonempty, characters⟩
    rw [List.drop_zero, List.append_assoc, List.append_assoc, List.singleton_append]

theorem value_at_succ {character : Char} {rest value : Text} {place : Nat} :
    ValueAt (character :: rest) (place + 1) value ↔ ValueAt rest place value :=
  ⟨fun found => ⟨found.quoted, found.nonempty, found.characters⟩,
    fun found => ⟨found.quoted, found.nonempty, found.characters⟩⟩

/-- No attribute opens inside another one or at its closing quote. -/
theorem opening_apart {value behind : Text} {within : Nat}
    (characters : ∀ character ∈ value, isValueCharacter character = true) (inside : 0 < within)
    (bound : within ≤ opening.length + value.length) :
    ¬opening <+: (opening ++ (value ++ '"' :: behind)).drop within := by
  rintro ⟨after, parts⟩
  have size : opening.length = 7 := rfl
  by_cases early : within < opening.length
  · rw [size] at early
    interval_cases within <;> simp [opening] at parts
  · obtain ⟨skipped, rfl⟩ := Nat.exists_eq_add_of_le (Nat.le_of_not_lt early)
    have short : skipped ≤ value.length := by omega
    -- Up to here all are allowed in a value, and the first that is not is an equals sign.
    have letters : ['c', 'l', 'a', 's', 's'].all isValueCharacter = true := by decide +kernel
    have opens : (opening ++ after).dropWhile isValueCharacter = '=' :: '"' :: after := by
      rw [show opening ++ after = ['c', 'l', 'a', 's', 's'] ++ '=' :: '"' :: after from rfl,
        List.dropWhile_append_of_pos (List.all_eq_true.1 letters),
        List.dropWhile_cons_of_neg (by rw [mark_not_value '=' (by decide)]; decide)]
    have closes : (value.drop skipped ++ '"' :: behind).dropWhile isValueCharacter =
        '"' :: behind := by
      rw [List.dropWhile_append_of_pos fun character member =>
          characters character (List.mem_of_mem_drop member),
        List.dropWhile_cons_of_neg (by rw [mark_not_value '"' (by decide)]; decide)]
    rw [List.drop_length_add_append, List.drop_append_of_le_length short] at parts
    rw [parts, closes] at opens
    exact absurd (List.cons.inj opens).1 (by decide)

/-- What an attribute takes up ends in front of the next one. -/
theorem value_at_apart {markup first second : Text} {here there : Nat}
    (one : ValueAt markup here first) (other : ValueAt markup there second)
    (before : here < there) : here + opening.length + first.length < there := by
  by_contra overlap
  obtain ⟨behind, parts⟩ := one.quoted
  obtain ⟨within, rfl⟩ := Nat.exists_eq_add_of_lt before
  have opens : opening <+: markup.drop (here + within + 1) :=
    (List.prefix_append opening _).trans other.quoted
  rw [Nat.add_assoc, ← List.drop_drop, ← parts, List.append_assoc, List.append_assoc,
    List.singleton_append] at opens
  exact opening_apart one.characters (Nat.succ_pos within) (by omega) opens

/-- The attribute values with the places at which their attributes open. -/
def placedValues (place : Nat) : Text → List (Nat × Text)
  | [] => []
  | character :: rest =>
      ((attribute? (character :: rest)).map fun found => (place, found.1)).toList ++
        placedValues (place + 1) rest

theorem mem_placed_values {text value : Text} {start place : Nat} :
    (place, value) ∈ placedValues start text ↔
      ∃ within, place = start + within ∧ ValueAt text within value := by
  induction text generalizing start with
  | nil =>
      constructor
      · exact fun member => absurd member List.not_mem_nil
      · rintro ⟨within, _, ⟨behind, parts⟩, _⟩
        rw [List.drop_nil] at parts
        exact nomatch parts
  | cons character rest induction =>
      have here : (place, value) ∈
            ((attribute? (character :: rest)).map fun found => (start, found.1)).toList ↔
          place = start ∧ ValueAt (character :: rest) 0 value := by
        rw [value_at_front_iff]
        cases attribute? (character :: rest) with
        | none => simp
        | some found =>
            obtain ⟨first, behind⟩ := found
            simp [and_comm, eq_comm]
      rw [placedValues, List.mem_append, here, induction]
      constructor
      · rintro (⟨rfl, value⟩ | ⟨within, rfl, value⟩)
        · exact ⟨0, rfl, value⟩
        · exact ⟨within + 1, by omega, value_at_succ.2 value⟩
      · rintro ⟨_ | within, rfl, value⟩
        · exact .inl ⟨rfl, value⟩
        · exact .inr ⟨within, by omega, value_at_succ.1 value⟩

theorem placed_values_ascending (start : Nat) (text : Text) :
    (placedValues start text).Pairwise fun one other => one.1 < other.1 := by
  induction text generalizing start with
  | nil => exact .nil
  | cons character rest induction =>
      rw [placedValues, List.pairwise_append]
      refine ⟨?_, induction _, ?_⟩
      · cases attribute? (character :: rest) with
        | none => exact .nil
        | some found => exact List.pairwise_singleton _ _
      · rintro one here ⟨place, value⟩ later
        obtain ⟨within, rfl, _⟩ := mem_placed_values.1 later
        obtain ⟨found, _, rfl⟩ := Option.map_eq_some_iff.1 (Option.mem_toList.1 here)
        exact Nat.lt_of_lt_of_le (Nat.lt_succ_self start) (Nat.le_add_right _ _)

/-- A front at which no attribute opens can be left out. -/
theorem placed_values_behind {start : Nat} {front rest : Text}
    (free : ∀ within < front.length, ¬opening <+: (front ++ rest).drop within) :
    placedValues start (front ++ rest) = placedValues (start + front.length) rest := by
  induction front generalizing start with
  | nil => rfl
  | cons character front induction =>
      have none : attribute? (character :: (front ++ rest)) = none := by
        rw [attribute?, if_neg]
        intro starts
        exact free 0 (Nat.succ_pos _) (List.isPrefixOf_iff_prefix.1 starts)
      have later := @induction (start + 1) fun within short =>
        free (within + 1) (Nat.succ_lt_succ short)
      rw [List.cons_append, placedValues, none, later, List.length_cons, Nat.add_assoc,
        Nat.add_comm 1]
      rfl

/-- The scan finds the value at every place at which an attribute opens. -/
theorem attribute_values_eq (start : Nat) (markup : Text) :
    attributeValues markup = (placedValues start markup).map Prod.snd := by
  induction markup using attributeValues.induct generalizing start with
  | case1 => rw [attributeValues, placedValues, List.map_nil]
  | case2 character rest value behind found shorter induction =>
      obtain ⟨parts, _, characters⟩ := attribute_eq_some_iff.1 found
      have inner : rest = opening.tail ++ (value ++ ['"']) ++ behind := by
        rw [List.append_assoc, List.append_assoc]
        exact (List.cons.inj parts).2
      have skipped : placedValues (start + 1) rest =
          placedValues (start + 1 + (opening.tail ++ (value ++ ['"'])).length) behind := by
        rw [inner]
        apply placed_values_behind
        intro within short opens
        rw [← inner] at opens
        apply opening_apart characters (Nat.succ_pos within) _ _
        · exact behind
        · simp [opening] at short ⊢
          omega
        · rwa [← parts]
      rw [attribute_values_some found, placedValues, found, skipped, induction]
      rfl
  | case3 character rest missing induction =>
      rw [attribute_values_none missing, placedValues, missing, induction (start + 1)]
      rfl

/-- The names with their places in the markup, value after value. -/
def placedNames (markup : Text) : List (Nat × Text) :=
  (placedValues 0 markup).flatMap fun found =>
    Text.placedWords isNameEnd (found.1 + opening.length) true found.2

theorem mem_placed_values_whole {markup value : Text} {place : Nat} :
    (place, value) ∈ placedValues 0 markup ↔ ValueAt markup place value := by
  simp [mem_placed_values]

theorem mem_placed_names {markup name : Text} {place : Nat} :
    (place, name) ∈ placedNames markup ↔ NamedAt markup place name := by
  rw [placedNames, List.mem_flatMap]
  constructor
  · rintro ⟨⟨opens, value⟩, found, inside⟩
    obtain ⟨within, rfl, word⟩ := Text.mem_placed_words_whole.1 inside
    exact ⟨opens, value, within, mem_placed_values_whole.1 found, word, rfl⟩
  · rintro ⟨opens, value, within, found, word, rfl⟩
    exact ⟨(opens, value), mem_placed_values_whole.2 found,
      Text.mem_placed_words_whole.2 ⟨within, rfl, word⟩⟩

/-- The names of a value stand in front of the next attribute. -/
theorem placed_names_ascending (markup : Text) :
    (placedNames markup).Pairwise fun one other => one.1 < other.1 := by
  rw [placedNames, List.pairwise_flatMap]
  refine ⟨fun found _ => Text.placed_words_ascending _ true found.2, ?_⟩
  apply (placed_values_ascending 0 markup).imp_of_mem
  rintro ⟨here, first⟩ ⟨there, second⟩ one other before ⟨place, name⟩ inside ⟨next, later⟩ behind
  obtain ⟨within, rfl, word⟩ := Text.mem_placed_words_whole.1 inside
  obtain ⟨beyond, rfl, _⟩ := Text.mem_placed_words_whole.1 behind
  have apart := value_at_apart (mem_placed_values_whole.1 one) (mem_placed_values_whole.1 other)
    before
  have bound : within < first.length := by
    have size : name.length ≤ (first.drop within).length := word.stands.length_le
    have positive := List.length_pos_of_ne_nil word.nonempty
    rw [List.length_drop] at size
    omega
  change here + opening.length + within < there + opening.length + beyond
  omega

theorem classes_eq (markup : Text) :
    classes markup = .ofList ((placedNames markup).map Prod.snd) := by
  have named : ∀ value ∈ attributeValues markup,
      valueNames value = Text.wordsBy isNameEnd value := fun value member =>
    value_names_eq (attribute_value_characters member)
  rw [classes, List.flatMap_congr named, attribute_values_eq 0, List.flatMap_map, placedNames,
    List.map_flatMap]
  simp only [Text.words_by_eq]

/-- The classes of markup are the names that stand anywhere between the quotes of an attribute,
each once, in the order of their first places. No attribute is missed because of one in front
of it, whether that one was found or given up. -/
theorem classes_by_place (markup : Text) :
    (∀ name, name ∈ classes markup ↔ ∃ place, NamedAt markup place name) ∧
      (classes markup).toList.Nodup ∧
      (classes markup).toList.Pairwise (NamedBefore markup) ∧
      ∀ name ∈ classes markup, name.IsName := by
  have member {name : Text} (known : name ∈ classes markup) :
      name ∈ (placedNames markup).map Prod.snd := by
    rwa [classes_eq, OrderedSet.mem_of_list] at known
  refine ⟨fun name => ?_, (classes markup).distinct, ?_, fun name => class_is_name⟩
  · rw [classes_eq, OrderedSet.mem_of_list]
    simp [mem_placed_names]
  · have order : OrderedSet.ByFirstPlace ((placedNames markup).map Prod.snd)
        (classes markup).toList := by
      rw [classes_eq]
      exact OrderedSet.of_list_by_first_place _
    apply order.imp_of_mem
    intro earlier later known _ before
    obtain ⟨place, stands, first⟩ := OrderedSet.first_place_of_ascending
      (placed_names_ascending markup) (member known) (List.pairwise_pair.2 before)
    exact ⟨place, mem_placed_names.1 stands, fun other there =>
      first other (mem_placed_names.2 there)⟩

/-- A value with another character and one that is not closed, each in front of one that counts. -/
theorem classes_by_place_broken :
    let markup : Text :=
      Text.ofString "class=\"x/y\" class=\"a:é  c\" class=\"class=\"d:a\""
    (classes markup).toList = [['a'], ['é'], ['c'], ['d']] ∧ ['d'] ∈ classes markup ∧
      Text.IsName ['d'] ∧ ∃ place, NamedAt markup place ['d'] := by
  intro markup
  have listed : (classes markup).toList = [['a'], ['é'], ['c'], ['d']] := by decide +kernel
  have member : ['d'] ∈ classes markup := by
    rw [OrderedSet.mem_iff_mem_to_list, listed]
    decide
  have placed := classes_by_place markup
  exact ⟨listed, member, placed.2.2.2 _ member, (placed.1 _).1 member⟩

end Markup

end StylePurge
