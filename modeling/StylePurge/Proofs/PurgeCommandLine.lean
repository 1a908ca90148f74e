import StylePurge.Proofs.CommandLineReading
import StylePurge.Proofs.DecimalText

/-!
The command line of a purge. Whatever the order of the options and the names they go by, and
however lists are cut into pieces, the words stand for the request that was written down.
-/

namespace StylePurge.CommandLine

section Parts

/-- The words of an option each time it is given. -/
def parts (given : List Occurrence) (name : OptionName) : List (List Text) :=
  (given.filter fun occurrence => occurrence.form.name = name).map Occurrence.words

/-- An option with one word, given if there is a value. -/
def once (value : Option Text) : List (List Text) := value.toList.map fun word => [word]

def flagged (set : Bool) : List (List Text) := if set then [[]] else []

/-- A number in decimal; a plus sign and zeros may stand in front. -/
inductive WritesCount (number : Nat) : Text → Prop where
  | plain (zeros : Nat) : WritesCount number (List.replicate zeros '0' ++ Text.ofNat number)
  | signed (zeros : Nat) :
      WritesCount number ('+' :: (List.replicate zeros '0' ++ Text.ofNat number))

variable {given : List Occurrence} {name : OptionName} {occurrence : Occurrence}

theorem mem_parts (member : occurrence ∈ given) :
    occurrence.words ∈ parts given occurrence.form.name :=
  List.mem_map_of_mem (List.mem_filter.2 ⟨member, decide_eq_true rfl⟩)

theorem words_of_parts (given : List Occurrence) (name : OptionName) :
    wordsOf given name = (parts given name).flatten := by
  rw [wordsOf, parts, List.flatMap_def]

theorem is_given_parts (given : List Occurrence) (name : OptionName) :
    isGiven given name = !(parts given name).isEmpty := by
  rw [isGiven, parts, List.isEmpty_map, Bool.eq_iff_iff]
  simp [List.filter_eq_nil_iff]

theorem head_once (value : Option Text) : (once value).flatten.head? = value := by
  cases value <;> rfl

theorem path_of_once {path : Option Path} (same : parts given name = once (path.map Path.text)) :
    pathOf? given name = path := by
  rw [pathOf?, words_of_parts, same, head_once]
  cases path <;> rfl

theorem is_given_flagged {set : Bool} (same : parts given name = flagged set) :
    isGiven given name = set := by
  rw [is_given_parts, same]
  cases set <;> rfl

/-- Two options of one name make two parts of that name. -/
theorem apart_of_parts
    (single : ∀ later ∈ given, later.form.arity.isRepeatable = false →
      (parts given later.form.name).length ≤ 1) :
    given.Pairwise Occurrence.Apart := by
  induction given with
  | nil => exact .nil
  | cons occurrence rest induction =>
      have fewer (name : OptionName) :
          (parts rest name).length ≤ (parts (occurrence :: rest) name).length := by
        rw [parts, parts, List.length_map, List.length_map]
        exact ((List.sublist_cons_self occurrence rest).filter _).length_le
      refine .cons ?_ (induction fun later member simple =>
        (fewer _).trans (single later (List.mem_cons_of_mem occurrence member) simple))
      intro later member simple same
      have two : parts (occurrence :: rest) later.form.name =
          occurrence.words :: parts rest later.form.name := by
        simp [parts, same]
      have some : 0 < (parts rest later.form.name).length :=
        List.length_pos_of_mem (mem_parts member)
      have bound := single later (List.mem_cons_of_mem occurrence member) simple
      rw [two, List.length_cons] at bound
      omega

end Parts

section Counts

variable {number : Nat} {word : Text}

theorem no_sign (zeros number : Nat) :
    ∀ character ∈ List.replicate zeros '0' ++ Text.ofNat number,
      character ≠ '+' ∧ character ≠ '-' := by
  intro character member
  have digit : Text.isDigit character = true := by
    rcases List.mem_append.1 member with zero | digit
    · rw [List.eq_of_mem_replicate zero]
      rfl
    · exact Text.digits_of_nat number character digit
  constructor
  · rintro rfl
    exact absurd digit (by decide)
  · rintro rfl
    exact absurd digit (by decide)

theorem count_of_writes (writes : WritesCount number word) (bound : number < Text.wordLimit) :
    count? word = some number := by
  have read (zeros : Nat) :
      (Text.toNat? 10 (List.replicate zeros '0' ++ Text.ofNat number)).bind Text.word? =
        some number := by
    rw [Text.to_nat_zeros_of_nat, Option.bind_some, Text.word?, if_pos bound]
  cases writes with
  | plain zeros =>
      rw [count?]
      · exact read zeros
      · intro digits same
        have sign : '+' ∈ List.replicate zeros '0' ++ Text.ofNat number := by
          rw [same]
          exact List.mem_cons_self
        exact (no_sign zeros number _ sign).1 rfl
  | signed zeros => exact read zeros

theorem plain_of_writes (writes : WritesCount number word) : word.head? ≠ some '-' := by
  cases writes with
  | plain zeros =>
      intro dash
      exact (no_sign zeros number _ (List.mem_of_mem_head? dash)).2 rfl
  | signed zeros => exact fun dash => absurd (Option.some.inj dash) (by decide)

end Counts

section Requests

/-- The paths that a request names. -/
def namedPaths (request : PurgeRequest) : List Path :=
  [request.input, request.output] ++ request.whitelist.toList ++ request.config.toList ++
    request.report.toList

/-- Paths name something, and no word could be taken for the name of an option. -/
structure Plain (request : PurgeRequest) : Prop where
  paths : ∀ path ∈ namedPaths request, path.text ≠ [] ∧ path.text.head? ≠ some '-'
  lists : ∀ word ∈ request.html ++ request.exclude ++ request.classes, word.head? ≠ some '-'
  jobs : ∀ jobs ∈ request.jobs, jobs < Text.wordLimit

/-- The options are given for the request: paths, flags and the number of jobs once if at all,
lists in one or more pieces in order. -/
structure GivenFor (request : PurgeRequest) (given : List Occurrence) : Prop where
  known : ∀ occurrence ∈ given, occurrence.form ∈ CommandName.purge.options
  input : parts given .input = once (some request.input.text)
  output : parts given .output = once (some request.output.text)
  html : [] ∉ parts given .html ∧ (parts given .html).flatten = request.html
  exclude : (parts given .exclude).flatten = request.exclude
  classes : [] ∉ parts given .className ∧ (parts given .className).flatten = request.classes
  whitelist : parts given .whitelist = once (request.whitelist.map Path.text)
  config : parts given .config = once (request.config.map Path.text)
  report : parts given .report = once (request.report.map Path.text)
  noBanner : parts given .noBanner = flagged request.noBanner
  allowEmpty : parts given .allowEmpty = flagged request.allowEmpty
  dryRun : parts given .dryRun = flagged request.dryRun
  verbose : parts given .verbose = flagged request.verbose
  jobs : ∃ word, parts given .jobs = once word ∧ Option.Rel WritesCount request.jobs word
  help : parts given .help = []

variable {request : PurgeRequest} {given : List Occurrence} {occurrence : Occurrence}
  {words : List Text}

theorem proper_count (plain : Plain request) {word : Option Text}
    (writes : Option.Rel WritesCount request.jobs word) :
    word.bind count? = request.jobs ∧
      ∀ text ∈ word, WordKind.objection? .count text = none ∧ text.head? ≠ some '-' := by
  have bound := plain.jobs
  generalize request.jobs = jobs at writes bound
  cases writes with
  | none => exact ⟨rfl, nofun⟩
  | @some number text writes =>
      have read := count_of_writes writes (bound number rfl)
      refine ⟨read, fun other same => ?_⟩
      obtain rfl := Option.some.inj same
      exact ⟨if_pos (Option.isSome_of_eq_some read), plain_of_writes writes⟩

theorem request_of_given (plain : Plain request) (suits : GivenFor request given) :
    purgeRequest? given = some request := by
  have input : pathOf? given .input = some request.input := path_of_once suits.input
  have output : pathOf? given .output = some request.output := path_of_once suits.output
  have jobs : jobsOf? given = request.jobs := by
    obtain ⟨word, same, writes⟩ := suits.jobs
    rw [jobsOf?, words_of_parts, same, head_once]
    exact (proper_count plain writes).1
  simp [purgeRequest?, input, output, jobs, path_of_once suits.whitelist, path_of_once suits.config,
    path_of_once suits.report, words_of_parts, suits.html, suits.exclude, suits.classes,
    is_given_flagged suits.noBanner, is_given_flagged suits.allowEmpty,
    is_given_flagged suits.dryRun, is_given_flagged suits.verbose]

/-- An option in a row of them takes its words, and it is the only one of its name unless it
repeats. -/
structure InOrder (given : List Occurrence) (occurrence : Occurrence) : Prop where
  valid : occurrence.Valid
  single : occurrence.form.arity.isRepeatable = false →
    (parts given occurrence.form.name).length ≤ 1

theorem in_order_flag (flag : occurrence.form.arity = .flag)
    (notHelp : occurrence.form.name ≠ .help) {set : Bool} (member : occurrence ∈ given)
    (same : parts given occurrence.form.name = flagged set) : InOrder given occurrence := by
  have inside := mem_parts member
  rw [same] at inside
  cases set with
  | false => exact absurd inside List.not_mem_nil
  | true =>
      have nothing : occurrence.words = [] := List.mem_singleton.1 inside
      refine ⟨⟨notHelp, ?_, ?_, ?_⟩, fun _ => same ▸ Nat.le_refl 1⟩
      · rw [flag]
        exact nothing
      · rw [nothing]
        exact fun _ inside => absurd inside List.not_mem_nil
      · rw [nothing]
        exact fun _ inside => absurd inside List.not_mem_nil

theorem in_order_once (one : occurrence.form.arity = .one)
    (notHelp : occurrence.form.name ≠ .help) {value : Option Text} (member : occurrence ∈ given)
    (same : parts given occurrence.form.name = once value)
    (proper : ∀ word ∈ value,
      occurrence.form.words.objection? word = none ∧ word.head? ≠ some '-') :
    InOrder given occurrence := by
  have inside := mem_parts member
  rw [same] at inside
  cases value with
  | none => exact absurd inside List.not_mem_nil
  | some word =>
      have single : occurrence.words = [word] := List.mem_singleton.1 inside
      obtain ⟨fits, noDash⟩ := proper word rfl
      refine ⟨⟨notHelp, ?_, ?_, ?_⟩, fun _ => same ▸ Nat.le_refl 1⟩
      · rw [one]
        exact ⟨word, single⟩
      · rw [single]
        exact List.forall_mem_singleton.2 fits
      · rw [single]
        exact List.forall_mem_singleton.2 noDash

theorem in_order_pieces (repeats : occurrence.form.arity.isRepeatable = true)
    (any : occurrence.form.words = .anyText) (notHelp : occurrence.form.name ≠ .help)
    {list : List Text} (member : occurrence ∈ given)
    (admits : occurrence.form.arity.Admits occurrence.words)
    (same : (parts given occurrence.form.name).flatten = list)
    (plain : ∀ word ∈ list, word.head? ≠ some '-') : InOrder given occurrence := by
  have inside : ∀ word ∈ occurrence.words, word ∈ list := by
    intro word piece
    rw [← same]
    exact List.mem_flatten_of_mem (mem_parts member) piece
  refine ⟨⟨notHelp, admits, ?_, fun word piece => plain word (inside word piece)⟩, ?_⟩
  · rw [any]
    exact fun _ _ => rfl
  · rw [repeats]
    exact nofun

theorem proper_paths (plain : Plain request) (value : Option Path)
    (within : ∀ path ∈ value, path ∈ namedPaths request) :
    ∀ word ∈ value.map Path.text,
      WordKind.objection? .path word = none ∧ word.head? ≠ some '-' := by
  intro word given
  obtain ⟨path, present, rfl⟩ := Option.map_eq_some_iff.1 given
  obtain ⟨nonempty, noDash⟩ := plain.paths path (within path present)
  exact ⟨if_neg (by simpa using nonempty), noDash⟩

theorem in_order_of_given (plain : Plain request) (suits : GivenFor request given)
    (member : occurrence ∈ given) : InOrder given occurrence := by
  have known := suits.known occurrence member
  have notHelp : occurrence.form.name ≠ .help := by
    intro help
    have inside := mem_parts member
    rw [help, suits.help] at inside
    exact absurd inside List.not_mem_nil
  have nonempty (pieces : [] ∉ parts given occurrence.form.name) : occurrence.words ≠ [] :=
    fun nothing => pieces (nothing ▸ mem_parts member)
  have paths := proper_paths plain
  have lists := plain.lists
  simp only [namedPaths, List.mem_append, List.mem_cons, List.not_mem_nil, or_false,
    Option.mem_toList] at paths lists
  -- One case for each option of the command, in the order of `CommandName.options`.
  obtain ⟨form, words⟩ := occurrence
  simp only [CommandName.options, List.mem_cons, List.not_mem_nil, or_false] at known
  rcases known with
    rfl | rfl | rfl | rfl | rfl | rfl | rfl | rfl | rfl | rfl | rfl | rfl | rfl | rfl
  · exact in_order_once rfl notHelp member suits.input (paths (some request.input) (by simp))
  · exact in_order_once rfl notHelp member suits.output (paths (some request.output) (by simp))
  · exact in_order_pieces rfl rfl notHelp member (nonempty suits.html.1) suits.html.2
      fun word inside => lists word (.inl (.inl inside))
  · exact in_order_pieces rfl rfl notHelp member trivial suits.exclude
      fun word inside => lists word (.inl (.inr inside))
  · exact in_order_pieces rfl rfl notHelp member (nonempty suits.classes.1) suits.classes.2
      fun word inside => lists word (.inr inside)
  · exact in_order_once rfl notHelp member suits.whitelist
      (paths request.whitelist fun path present => .inl (.inl (.inr present)))
  · exact in_order_once rfl notHelp member suits.config
      (paths request.config fun path present => .inl (.inr present))
  · exact in_order_once rfl notHelp member suits.report
      (paths request.report fun path present => .inr present)
  · exact in_order_flag rfl notHelp member suits.noBanner
  · exact in_order_flag rfl notHelp member suits.allowEmpty
  · exact in_order_flag rfl notHelp member suits.dryRun
  · exact in_order_flag rfl notHelp member suits.verbose
  · obtain ⟨word, same, writes⟩ := suits.jobs
    exact in_order_once rfl notHelp member same (proper_count plain writes).2
  · exact absurd rfl notHelp

theorem required_of_given (suits : GivenFor request given) {form : OptionForm}
    (member : form ∈ CommandName.purge.options) (required : form.required = true) :
    ∃ occurrence ∈ given, occurrence.form.name = form.name := by
  have asked {name : OptionName} {value : Text} (same : parts given name = once (some value)) :
      ∃ occurrence ∈ given, occurrence.form.name = name := by
    have present : [value] ∈ parts given name := by
      rw [same]
      exact List.mem_singleton_self _
    obtain ⟨occurrence, found, _⟩ := List.mem_map.1 present
    obtain ⟨member, named⟩ := List.mem_filter.1 found
    exact ⟨occurrence, member, of_decide_eq_true named⟩
  have names : ∀ form ∈ CommandName.purge.options, form.required = true →
      form.name = .input ∨ form.name = .output := by
    decide
  rcases names form member required with name | name
  · exact name ▸ asked suits.input
  · exact name ▸ asked suits.output

/-- Whatever the order of the options, the names they go by and the pieces that lists come in,
the words of a command line are read as the request they were written for. -/
theorem read_spelled (request : PurgeRequest) (plain : Plain request) (given : List Occurrence)
    (suits : GivenFor request given) (words : List Text) (spells : Spells given words) :
    read (CommandName.purge.word :: words) = .ok (.purge request) := by
  have inOrder (occurrence : Occurrence) (member : occurrence ∈ given) :=
    in_order_of_given plain suits member
  have reads : occurrences CommandName.purge.options words = .ok given := by
    apply occurrences_spelled (options_distinct .purge) spells
    · exact fun occurrence member =>
        ⟨suits.known occurrence member, (inOrder occurrence member).valid⟩
    · exact apart_of_parts fun later member => (inOrder later member).single
    · exact fun form member required => required_of_given suits member required
  have requested : CommandName.purge.request words = .ok (.purge request) := by
    rw [CommandName.request, reads, bind_eq_ok]
    refine ⟨given, rfl, ?_⟩
    dsimp only
    rw [request_of_given plain suits]
    rfl
  exact requested

theorem read_spelled_interleaved :
    read [CommandName.purge.word, ['-', '-', 'h', 't', 'm', 'l'], ['a'], ['b'], ['-', 'v'],
        ['-', 'i'], ['i'], ['-', '-', 'h', 't', 'm', 'l'], ['c'], ['-', 'k'], [],
        ['-', '-', 'o', 'u', 't', 'p', 'u', 't'], ['o'], ['-', 'j'], ['+', '0', '7']] =
      .ok (.purge
        { input := ⟨['i']⟩, output := ⟨['o']⟩, html := [['a'], ['b'], ['c']], exclude := []
          classes := [[]], whitelist := none, config := none, report := none, noBanner := false
          allowEmpty := false, dryRun := false, verbose := true, jobs := some 7 }) := by
  let given : List Occurrence :=
    [⟨.html, [['a'], ['b']]⟩, ⟨.verbose, []⟩, ⟨.input, [['i']]⟩, ⟨.html, [['c']]⟩,
      ⟨.className, [[]]⟩, ⟨.output, [['o']]⟩, ⟨.jobs, [['+', '0', '7']]⟩]
  have spells : Spells given _ :=
    .cons .long <| .cons (.short rfl) <| .cons (.short rfl) <| .cons .long <| .cons (.short rfl) <|
      .cons .long <| .cons (.short rfl) .nil
  refine read_spelled _ ⟨?_, ?_, ?_⟩ given ?_ _ spells
  · decide
  · decide
  · decide
  · exact
      { known := by decide
        input := rfl
        output := rfl
        html := by decide
        exclude := rfl
        classes := by decide
        whitelist := rfl
        config := rfl
        report := rfl
        noBanner := rfl
        allowEmpty := rfl
        dryRun := rfl
        verbose := rfl
        jobs := ⟨some ['+', '0', '7'], rfl, .some (.signed 1)⟩
        help := rfl }

end Requests

end StylePurge.CommandLine
