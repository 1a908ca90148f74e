import Mathlib.Data.List.TakeWhile
import StylePurge.CommandLine
import StylePurge.Proofs.Stages

/-!
Options given one after the other. An option is named in its long or its short form and takes
the words up to the next name, so a row of options that are all in order is read as these
options, whatever their sequence.
-/

namespace StylePurge.CommandLine

section Forms

/-- Names tell the options apart. -/
structure Distinct (forms : List OptionForm) : Prop where
  long : ∀ form ∈ forms, form.long ≠ [] ∧ '=' ∉ form.long ∧
    forms.find? (fun other => other.long = form.long) = some form
  short : ∀ form ∈ forms, ∀ letter, form.short = some letter → letter ≠ '-' ∧
    forms.find? (fun other => other.short = some letter) = some form

theorem options_distinct (name : CommandName) : Distinct name.options := by
  have long : ∀ form ∈ name.options, form.long ≠ [] ∧ '=' ∉ form.long ∧
      name.options.find? (fun other => other.long = form.long) = some form := by
    cases name <;> decide
  have short : ∀ form ∈ name.options, form.short.all (fun letter => letter ≠ '-' ∧
      name.options.find? (fun other => other.short = some letter) = some form) = true := by
    cases name <;> decide
  refine ⟨long, fun form member letter known => ?_⟩
  have all := short form member
  rw [known] at all
  exact of_decide_eq_true all

/-- A word that names an option. -/
inductive Names (form : OptionForm) : Text → Prop where
  | long : Names form ('-' :: '-' :: form.long)
  | short {letter : Char} (known : form.short = some letter) : Names form ['-', letter]

/-- The words of a command line that gives these options. -/
inductive Spells : List Occurrence → List Text → Prop where
  | nil : Spells [] []
  | cons {occurrence : Occurrence} {given : List Occurrence} {name : Text} {words : List Text}
      (names : Names occurrence.form name) (later : Spells given words) :
      Spells (occurrence :: given) (name :: (occurrence.words ++ words))

def Arity.Admits (words : List Text) : Arity → Prop
  | .flag => words = []
  | .one => ∃ word, words = [word]
  | .oneOrMore => words ≠ []
  | .zeroOrMore => True

variable {arity : Arity} {words : List Text}

theorem enough_words (admits : arity.Admits words) :
    (arity.needsWord && words.isEmpty) = false := by
  cases arity with
  | flag => rfl
  | one =>
      obtain ⟨word, rfl⟩ := admits
      rfl
  | oneOrMore => simpa [Arity.needsWord, Arity.Admits] using admits
  | zeroOrMore => rfl

theorem few_words (admits : arity.Admits words) :
    arity.isRepeatable = true ∨ words.length ≤ 1 := by
  cases arity with
  | flag =>
      obtain rfl : words = [] := admits
      exact .inr (Nat.zero_le 1)
  | one =>
      obtain ⟨word, rfl⟩ := admits
      exact .inr (Nat.le_refl 1)
  | oneOrMore => exact .inl rfl
  | zeroOrMore => exact .inl rfl

theorem no_words (admits : arity.Admits words) (flag : ¬arity.takesWords = true) : words = [] := by
  cases arity with
  | flag => exact admits
  | one => exact absurd rfl flag
  | oneOrMore => exact absurd rfl flag
  | zeroOrMore => exact absurd rfl flag

end Forms

section Occurrences

/-- An option with words that it can take, none of which looks like a name. -/
structure Occurrence.Valid (occurrence : Occurrence) : Prop where
  notHelp : occurrence.form.name ≠ .help
  admits : occurrence.form.arity.Admits occurrence.words
  kind : ∀ word ∈ occurrence.words, occurrence.form.words.objection? word = none
  plain : ∀ word ∈ occurrence.words, word.head? ≠ some '-'

/-- Options that do not repeat have to differ. -/
def Occurrence.Apart (earlier later : Occurrence) : Prop :=
  later.form.arity.isRepeatable = false → earlier.form.name ≠ later.form.name

variable {occurrence : Occurrence} {settled : List Occurrence}

theorem settle_valid (valid : occurrence.Valid)
    (apart : ∀ earlier ∈ settled, earlier.Apart occurrence) :
    occurrence.settle settled = .ok (settled ++ [occurrence]) := by
  have once : (!occurrence.form.arity.isRepeatable &&
      settled.any fun other => other.form.name = occurrence.form.name) = false := by
    cases repeatable : occurrence.form.arity.isRepeatable with
    | true => rfl
    | false =>
        simp only [Bool.not_false, Bool.true_and, List.any_eq_false, decide_eq_true_eq]
        exact fun earlier member => apart earlier member repeatable
  have fitting : occurrence.words.findSome? occurrence.form.words.objection? = none :=
    List.findSome?_eq_none_iff.2 valid.kind
  rw [Occurrence.settle, if_neg valid.notHelp, Occurrence.objection?, enough_words valid.admits,
    once, fitting]
  rfl

end Occurrences

section Steps

variable {forms : List OptionForm} {form : OptionForm} {reading : Reading} {name word : Text}
  {settled given : List Occurrence} {occurrence : Occurrence} {words : List Text}

/-- What the name of an option does to a reading. -/
def Reading.beginOption (reading : Reading) (form : OptionForm) : Except UsageFault Reading :=
  if form.arity.takesWords then reading.openOption form else reading.addComplete ⟨form, []⟩

theorem step_long (distinct : Distinct forms) (member : form ∈ forms)
    (running : reading.ended = false) :
    reading.step forms ('-' :: '-' :: form.long) = reading.beginOption form := by
  obtain ⟨nonempty, plain, found⟩ := distinct.long form member
  have name : ∀ character ∈ form.long, (character != '=') = true := by
    intro character inside
    rw [bne_iff_ne]
    rintro rfl
    exact plain inside
  have long : reading.step forms ('-' :: '-' :: form.long) = reading.addLong forms form.long := by
    rw [Reading.step, running]
    · rfl
    · exact nonempty
  rw [long, Reading.addLong, List.takeWhile_eq_self_iff.2 name, List.dropWhile_eq_nil_iff.2 name,
    found]
  rfl

theorem step_short (distinct : Distinct forms) (member : form ∈ forms) {letter : Char}
    (known : form.short = some letter) (running : reading.ended = false) :
    reading.step forms ['-', letter] = reading.beginOption form := by
  obtain ⟨noDash, found⟩ := distinct.short form member letter known
  have short : reading.step forms ['-', letter] = reading.addShort forms [letter] := by
    rw [Reading.step, running]
    · rfl
    · exact fun same _ => noDash same
    · exact noDash
  rw [short, Reading.addShort, found, Reading.beginOption]
  dsimp only
  by_cases takes : form.arity.takesWords = true
  · rw [if_pos takes, if_pos takes]
    rfl
  · rw [if_neg takes, if_neg takes]
    cases reading.addComplete ⟨form, []⟩ <;> rfl

theorem step_name (distinct : Distinct forms) (member : form ∈ forms) (names : Names form name)
    (running : reading.ended = false) :
    reading.step forms name = reading.beginOption form := by
  cases names with
  | long => exact step_long distinct member running
  | short known => exact step_short distinct member known running

theorem step_word (plain : word.head? ≠ some '-') (running : reading.ended = false) :
    reading.step forms word = reading.addWord word := by
  rw [Reading.step, running]
  · rfl
  · rintro rfl
    exact plain rfl
  · rintro _ rfl
    exact plain rfl
  · rintro _ _ rfl
    exact plain rfl

end Steps

section Runs

variable {forms : List OptionForm} {reading : Reading} {name : Text} {words : List Text}
  {settled given : List Occurrence} {occurrence : Occurrence}

/-- The reading goes on, and the options read so far are these once the last one is settled. -/
structure Reached (reading : Reading) (settled : List Occurrence) : Prop where
  running : reading.ended = false
  finishes : reading.finish = .ok settled

theorem reached_start : Reached .start [] := ⟨rfl, rfl⟩

/-- Words are added to an open option. Only one that repeats takes more than one. -/
theorem add_words {form : OptionForm} {earlier : List Text}
    (plain : ∀ word ∈ words, word.head? ≠ some '-')
    (takes : form.arity.isRepeatable = true ∨ (earlier ++ words).length ≤ 1) :
    words.foldlM (Reading.step forms) ⟨settled, some ⟨form, earlier⟩, false⟩ =
      .ok ⟨settled, some ⟨form, earlier ++ words⟩, false⟩ := by
  induction words generalizing earlier with
  | nil => rw [List.append_nil]; rfl
  | cons word rest induction =>
      -- The option repeats, or it has no word so far.
      have isOpen : (⟨form, earlier⟩ : Occurrence).isOpen = true := by
        rw [Occurrence.isOpen, Bool.or_eq_true]
        refine takes.imp_right fun short => ?_
        rw [List.length_append, List.length_cons] at short
        exact List.isEmpty_iff_length_eq_zero.2 (show earlier.length = 0 by omega)
      have step : Reading.step forms ⟨settled, some ⟨form, earlier⟩, false⟩ word =
          .ok ⟨settled, some ⟨form, earlier ++ [word]⟩, false⟩ := by
        rw [step_word (plain word List.mem_cons_self) rfl, Reading.addWord]
        dsimp only
        rw [if_pos isOpen]
      rw [List.append_cons] at takes ⊢
      rw [List.foldlM_cons, step]
      exact induction (fun other member => plain other (List.mem_cons_of_mem word member)) takes

/-- One option after the others: its name and its words are read as the option. -/
theorem run_occurrence (distinct : Distinct forms) (member : occurrence.form ∈ forms)
    (names : Names occurrence.form name) (valid : occurrence.Valid)
    (apart : ∀ earlier ∈ settled, earlier.Apart occurrence) (reached : Reached reading settled) :
    ∃ next, (name :: occurrence.words).foldlM (Reading.step forms) reading = .ok next ∧
      Reached next (settled ++ [occurrence]) := by
  have settles := settle_valid valid apart
  rw [List.foldlM_cons, step_name distinct member names reached.running, Reading.beginOption]
  by_cases takes : occurrence.form.arity.takesWords = true
  · have open_ : reading.openOption occurrence.form =
        .ok ⟨settled, some ⟨occurrence.form, []⟩, false⟩ := by
      rw [Reading.openOption, reached.finishes, reached.running]
      rfl
    rw [if_pos takes, open_]
    exact ⟨_, add_words valid.plain (few_words valid.admits), rfl, settles⟩
  · have nothing : occurrence.words = [] := no_words valid.admits takes
    have flag : (⟨occurrence.form, []⟩ : Occurrence) = occurrence := by
      rw [← nothing]
    have complete : reading.addComplete occurrence =
        .ok ⟨settled ++ [occurrence], none, false⟩ := by
      rw [Reading.addComplete, reached.finishes, bind_eq_ok]
      refine ⟨settled, rfl, ?_⟩
      rw [settles, reached.running]
      rfl
    rw [if_neg takes, flag, complete, nothing]
    exact ⟨_, rfl, rfl, rfl⟩

/-- A row of options, whatever their sequence. -/
theorem run_spelled (distinct : Distinct forms) (spells : Spells given words)
    (known : ∀ occurrence ∈ given, occurrence.form ∈ forms ∧ occurrence.Valid)
    (apart : (settled ++ given).Pairwise Occurrence.Apart) (reached : Reached reading settled) :
    ∃ next, words.foldlM (Reading.step forms) reading = .ok next ∧
      Reached next (settled ++ given) := by
  -- The last option may still be open when the next one is named, so the induction carries
  -- what the reading finishes with and not what it has settled.
  induction spells generalizing reading settled with
  | nil => exact ⟨reading, rfl, by rwa [List.append_nil]⟩
  | @cons occurrence given name words names later induction =>
      obtain ⟨member, valid⟩ := known occurrence List.mem_cons_self
      have before : ∀ earlier ∈ settled, earlier.Apart occurrence := fun earlier inside =>
        (List.pairwise_append.1 apart).2.2 earlier inside occurrence List.mem_cons_self
      obtain ⟨middle, run, reachedMiddle⟩ :=
        run_occurrence distinct member names valid before reached
      rw [List.append_cons] at apart ⊢
      obtain ⟨next, onward, reachedNext⟩ := induction
        (fun other inside => known other (List.mem_cons_of_mem occurrence inside)) apart
        reachedMiddle
      refine ⟨next, ?_, reachedNext⟩
      rw [← List.cons_append, List.foldlM_append, run]
      exact onward

/-- Options that are all in order are read as they were given. -/
theorem occurrences_spelled (distinct : Distinct forms) (spells : Spells given words)
    (known : ∀ occurrence ∈ given, occurrence.form ∈ forms ∧ occurrence.Valid)
    (apart : given.Pairwise Occurrence.Apart)
    (required : ∀ form ∈ forms, form.required = true →
      ∃ occurrence ∈ given, occurrence.form.name = form.name) :
    occurrences forms words = .ok given := by
  have joined : ([] ++ given).Pairwise Occurrence.Apart := apart
  obtain ⟨last, run, reached⟩ := run_spelled distinct spells known joined reached_start
  have complete : (forms.all fun form =>
      !form.required || given.any fun one => one.form.name = form.name) = true := by
    rw [List.all_eq_true]
    intro form member
    cases needed : form.required with
    | false => rfl
    | true => simpa using required form member needed
  rw [occurrences, run, bind_eq_ok]
  refine ⟨last, rfl, ?_⟩
  rw [reached.finishes, bind_eq_ok]
  exact ⟨given, rfl, if_pos complete⟩

end Runs

end StylePurge.CommandLine
