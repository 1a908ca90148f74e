import StylePurge.Splitter

/-!
The rule scan. One lemma says what a character can do: be passed over, extend
the pending text, discard it or turn it into a rule. From it come the facts
about whole texts: rules are disjoint pieces of the text, they only ever
accumulate, and the pending text alone leads the scan back to the same place.
The last fact makes a rule independent of where it was found.
-/

namespace StylePurge.Splitter

open Comment (Mode)

def Scan.run (scan : Scan) (text : Text) : Scan := text.foldl Scan.step scan

theorem run_nil (scan : Scan) : scan.run [] = scan := rfl

theorem run_cons (scan : Scan) (character : Char) (rest : Text) :
    scan.run (character :: rest) = (scan.step character).run rest := rfl

theorem run_append (scan : Scan) (left right : Text) :
    scan.run (left ++ right) = (scan.run left).run right := List.foldl_append

theorem scan_eq_run (css : Text) : scan css = Scan.start.run css := rfl

theorem run_induction {invariant : Scan → Prop}
    (preserved : ∀ scan character, invariant scan → invariant (scan.step character))
    (scan : Scan) (text : Text) (start : invariant scan) : invariant (scan.run text) :=
  List.foldlRecOn text Scan.step start fun scan before character _ =>
    preserved scan character before

/-- No rule has begun; some were found. -/
def Scan.idle (found : List Rule) : Scan := { Scan.start with rules := found }

theorem scan_concat (css : Text) (character : Char) :
    scan (css ++ [character]) = (scan css).step character := run_append Scan.start css [character]

/-- The next character is read outside comments. -/
abbrev Scan.Outside (scan : Scan) : Prop := scan.mode = .plain ∨ scan.mode = .slash

/-- Outside comments these characters end what is pending, with a rule or without. -/
def Scan.Ends (scan : Scan) (character : Char) : Prop :=
  (character = '}' ∧ scan.depth ≤ 1) ∨
    (character = ';' ∧ scan.depth = 0 ∧ isStatement (character :: scan.pending) = true)

/-- What a character can do. Layout in front of a rule is passed over, a closing
brace outside of any block discards the pending text, a closing brace that ends
the outermost block or a semicolon that ends a statement turns it into a rule,
and anything else extends it. -/
inductive Scan.Move (scan : Scan) (character : Char) : Scan → Prop where
  | skip (outside : scan.Outside) (fresh : scan.pending = [])
      (layout : Text.isLayout character = true) :
      Move scan character { scan with mode := .plain }
  | extend (mode : Mode) (depth : Nat)
      (goesOn : scan.Outside → ¬scan.Ends character) :
      Move scan character ⟨mode, depth, character :: scan.pending, scan.rules⟩
  | discard (outside : scan.Outside) (brace : character = '}')
      (depth : scan.depth = 0) :
      Move scan character ⟨.plain, 0, [], scan.rules⟩
  | emit (outside : scan.Outside)
      (ends : (character = '}' ∧ scan.depth = 1) ∨
        (character = ';' ∧ scan.depth = 0 ∧ isStatement (character :: scan.pending) = true)) :
      Move scan character ⟨.plain, 0, [], ⟨(character :: scan.pending).reverse⟩ :: scan.rules⟩

theorem push_of_not_layout {character : Char} (ink : Text.isLayout character = false)
    (pending : Text) : push character pending = character :: pending := by
  rw [push, ink, Bool.and_false]
  rfl

theorem push_cases (character : Char) (pending : Text) :
    (pending = [] ∧ Text.isLayout character = true ∧ push character pending = []) ∨
      push character pending = character :: pending := by
  by_cases skipped : (pending.isEmpty && Text.isLayout character) = true
  · obtain ⟨empty, layout⟩ := Bool.and_eq_true_iff.1 skipped
    exact .inl ⟨List.isEmpty_iff.1 empty, layout, if_pos skipped⟩
  · exact .inr (if_neg skipped)

theorem not_ends_of_ne {scan : Scan} {character : Char} (brace : character ≠ '}')
    (semicolon : character ≠ ';') : ¬scan.Ends character := by
  rintro (⟨same, _⟩ | ⟨same, _⟩)
  · exact brace same
  · exact semicolon same

theorem plain_step_move (scan : Scan) (character : Char)
    (outside : scan.Outside) :
    scan.Move character (scan.plainStep character) := by
  unfold Scan.plainStep
  by_cases slash : character = '/'
  · rw [if_pos slash, push_of_not_layout (by rw [slash]; rfl)]
    exact .extend .slash scan.depth fun _ =>
      not_ends_of_ne (by rw [slash]; decide) (by rw [slash]; decide)
  rw [if_neg slash]
  by_cases opening : character = '{'
  · rw [if_pos opening, push_of_not_layout (by rw [opening]; rfl)]
    exact .extend .plain (scan.depth + 1) fun _ =>
      not_ends_of_ne (by rw [opening]; decide) (by rw [opening]; decide)
  rw [if_neg opening]
  by_cases closing : character = '}'
  · rw [if_pos closing, push_of_not_layout (by rw [closing]; rfl)]
    split
    · rename_i depth
      rw [depth]
      exact .discard outside closing depth
    · rename_i depth
      rw [Scan.emit, push_of_not_layout (by rw [closing]; rfl)]
      exact .emit outside (.inl ⟨closing, depth⟩)
    · rename_i outer depth
      refine .extend .plain (outer + 1) fun _ => ?_
      rintro (⟨_, shallow⟩ | ⟨semicolon, _⟩)
      · omega
      · rw [closing] at semicolon
        exact absurd semicolon (by decide)
  rw [if_neg closing]
  by_cases ending : (character = ';' && scan.depth == 0 &&
      isStatement (push character scan.pending)) = true
  · rw [if_pos ending]
    simp only [Bool.and_eq_true, decide_eq_true_eq, beq_iff_eq] at ending
    obtain ⟨⟨semicolon, depth⟩, statement⟩ := ending
    have ink : Text.isLayout character = false := by
      rw [semicolon]
      rfl
    rw [push_of_not_layout ink] at statement
    rw [Scan.emit, push_of_not_layout ink]
    exact .emit outside (.inr ⟨semicolon, depth, statement⟩)
  · rw [if_neg ending]
    rcases push_cases character scan.pending with ⟨fresh, layout, pushed⟩ | pushed
    · rw [pushed, ← fresh]
      exact .skip outside fresh layout
    · rw [pushed]
      refine .extend .plain scan.depth fun _ => ?_
      rintro (⟨brace, _⟩ | ⟨semicolon, depth, statement⟩)
      · exact closing brace
      · apply ending
        rw [pushed, statement, depth, decide_eq_true semicolon]
        rfl

theorem step_move (scan : Scan) (character : Char) : scan.Move character (scan.step character) := by
  unfold Scan.step
  cases mode : scan.mode with
  | plain => exact plain_step_move scan character (.inl mode)
  | slash =>
      by_cases star : character = '*'
      · simp only [if_pos star]
        exact .extend .inside scan.depth fun _ =>
          not_ends_of_ne (by rw [star]; decide) (by rw [star]; decide)
      · simp only [if_neg star]
        exact plain_step_move scan character (.inr mode)
  | inside => exact .extend _ scan.depth fun outside => by simp [Scan.Outside, mode] at outside
  | star => exact .extend _ scan.depth fun outside => by simp [Scan.Outside, mode] at outside

theorem rules_step (scan : Scan) (character : Char) :
    scan.rules <:+ (scan.step character).rules := by
  have move := step_move scan character
  generalize scan.step character = next at move
  cases move with
  | skip outside fresh layout => exact List.suffix_refl scan.rules
  | extend mode depth => exact List.suffix_refl scan.rules
  | discard outside brace depth => exact List.suffix_refl scan.rules
  | emit outside ends => exact List.suffix_cons _ scan.rules

theorem rules_run (scan : Scan) (text : Text) : scan.rules <:+ (scan.run text).rules := by
  have preserved (next : Scan) (character : Char) (before : scan.rules <:+ next.rules) :
      scan.rules <:+ (next.step character).rules := before.trans (rules_step next character)
  exact run_induction preserved scan text (List.suffix_refl scan.rules)

theorem rules_of_prefix {earlier css : Text} (isPrefix : earlier <+: css) :
    rules earlier <+: rules css := by
  obtain ⟨later, rfl⟩ := isPrefix
  have suffix := rules_run (scan earlier) later
  rw [scan_eq_run, ← run_append] at suffix
  exact List.reverse_prefix.2 suffix

theorem rules_step_slash (scan : Scan) : (scan.step '/').rules = scan.rules := by
  have move := step_move scan '/'
  generalize scan.step '/' = next at move
  cases move with
  | skip outside fresh layout => rfl
  | extend mode depth => rfl
  | discard outside brace depth => rfl
  | emit outside ends => simp at ends

theorem rules_append_slashes (css slashes : Text) (only : ∀ character ∈ slashes, character = '/') :
    rules (css ++ slashes) = rules css := by
  have unchanged (scan : Scan) : (scan.run slashes).rules = scan.rules := by
    induction slashes generalizing scan with
    | nil => rfl
    | cons character rest induction =>
        have later := induction
          (fun other member => only other (List.mem_cons_of_mem character member))
          (scan.step character)
        rw [run_cons, later, only character List.mem_cons_self, rules_step_slash]
  exact congrArg List.reverse (by rw [scan_eq_run, run_append, unchanged, scan_eq_run])

def Scan.size (scan : Scan) : Nat :=
  scan.pending.length + (scan.rules.flatMap Rule.text).length

theorem size_step_le (scan : Scan) (character : Char) :
    (scan.step character).size ≤ scan.size + 1 := by
  have move := step_move scan character
  generalize scan.step character = next at move
  cases move with
  | skip outside fresh layout => exact Nat.le_succ scan.size
  | extend mode depth =>
      simp only [Scan.size, List.length_cons]
      omega
  | discard outside brace depth =>
      simp only [Scan.size, List.length_nil]
      omega
  | emit outside ends =>
      simp only [Scan.size, List.length_nil, List.flatMap_cons, List.length_append,
        List.length_reverse, List.length_cons]
      omega

theorem size_run_le (scan : Scan) (text : Text) :
    (scan.run text).size ≤ scan.size + text.length := by
  induction text generalizing scan with
  | nil => exact Nat.le_refl scan.size
  | cons character rest induction =>
      have step := size_step_le scan character
      have later := induction (scan.step character)
      rw [run_cons, List.length_cons]
      omega

/-- The pending text ends where the scan stands, and rules are pieces of the
text in front of it. -/
structure Scan.Within (scan : Scan) (css : Text) : Prop where
  pending : scan.pending.reverse <:+ css
  rules : ∀ rule ∈ scan.rules, rule.text <:+: css

theorem within_step (scan : Scan) (css : Text) (character : Char) (within : scan.Within css) :
    (scan.step character).Within (css ++ [character]) := by
  have earlier : ∀ rule ∈ scan.rules, rule.text <:+: css ++ [character] := fun rule member =>
    List.infix_append_of_infix_left (within.rules rule member)
  have extended : (character :: scan.pending).reverse <:+ css ++ [character] := by
    obtain ⟨front, same⟩ := within.pending
    exact ⟨front, by rw [List.reverse_cons, ← List.append_assoc, same]⟩
  have move := step_move scan character
  generalize scan.step character = next at move
  cases move with
  | skip outside fresh layout =>
      refine ⟨?_, earlier⟩
      rw [fresh]
      exact List.nil_suffix
  | extend mode depth => exact ⟨extended, earlier⟩
  | discard outside brace depth => exact ⟨List.nil_suffix, earlier⟩
  | emit outside ends =>
      refine ⟨List.nil_suffix, fun rule member => ?_⟩
      rcases List.mem_cons.1 member with rfl | old
      · exact extended.isInfix
      · exact earlier rule old

theorem within_run (scan : Scan) (css text : Text) (within : scan.Within css) :
    (scan.run text).Within (css ++ text) := by
  induction text generalizing scan css with
  | nil =>
      rw [List.append_nil]
      exact within
  | cons character rest induction =>
      rw [List.append_cons]
      exact induction (scan.step character) (css ++ [character])
        (within_step scan css character within)

theorem rule_slice {css : Text} {rule : Rule} (member : rule ∈ rules css) : rule.text <:+: css := by
  have within := within_run Scan.start [] css ⟨List.nil_suffix, fun _ => nofun⟩
  exact within.rules rule (List.mem_reverse.1 member)

/-- The same scan with rules found earlier. -/
def Scan.onto (scan : Scan) (earlier : List Rule) : Scan :=
  { scan with rules := scan.rules ++ earlier }

theorem plain_step_onto (scan : Scan) (earlier : List Rule) (character : Char) :
    (scan.onto earlier).plainStep character = (scan.plainStep character).onto earlier := by
  unfold Scan.plainStep
  by_cases slash : character = '/'
  · simp only [if_pos slash]
    rfl
  by_cases opening : character = '{'
  · simp only [if_neg slash, if_pos opening]
    rfl
  by_cases closing : character = '}'
  · simp only [if_neg slash, if_neg opening, if_pos closing]
    rw [show (scan.onto earlier).depth = scan.depth from rfl]
    split
    · rfl
    · rfl
    · rfl
  simp only [if_neg slash, if_neg opening, if_neg closing]
  by_cases ending : (character = ';' && scan.depth == 0 &&
      isStatement (push character scan.pending)) = true
  · have endingOnto : (character = ';' && (scan.onto earlier).depth == 0 &&
        isStatement (push character (scan.onto earlier).pending)) = true := ending
    rw [if_pos ending, if_pos endingOnto]
    rfl
  · have goesOnOnto : ¬(character = ';' && (scan.onto earlier).depth == 0 &&
        isStatement (push character (scan.onto earlier).pending)) = true := ending
    rw [if_neg ending, if_neg goesOnOnto]
    rfl

theorem step_onto (scan : Scan) (earlier : List Rule) (character : Char) :
    (scan.onto earlier).step character = (scan.step character).onto earlier := by
  unfold Scan.step
  rw [show (scan.onto earlier).mode = scan.mode from rfl]
  cases scan.mode with
  | plain => exact plain_step_onto scan earlier character
  | slash =>
      dsimp only
      by_cases star : character = '*'
      · rw [if_pos star, if_pos star]
        rfl
      · rw [if_neg star, if_neg star]
        exact plain_step_onto scan earlier character
  | inside => rfl
  | star => rfl

theorem run_onto (scan : Scan) (earlier : List Rule) (text : Text) :
    (scan.onto earlier).run text = (scan.run text).onto earlier := by
  induction text generalizing scan with
  | nil => rfl
  | cons character rest induction =>
      rw [run_cons, step_onto, induction]
      rfl

/-- The invariant behind rereading: the pending text leads the scan back to
where it stands, and the text of a rule leads it back to the start. -/
structure Scan.Retraces (scan : Scan) : Prop where
  pending : Splitter.scan scan.pending.reverse = { scan with rules := [] }
  rules : ∀ rule ∈ scan.rules, Splitter.scan rule.text = Scan.idle [rule]

theorem idle_of_retraces {scan : Scan} (retraces : scan.Retraces) (empty : scan.pending = []) :
    scan = Scan.idle scan.rules := by
  obtain ⟨mode, depth, pending, rules⟩ := scan
  have empty : pending = [] := empty
  subst empty
  have here : Scan.start = ⟨mode, depth, [], []⟩ := retraces.pending
  injection here with sameMode sameDepth _ _
  rw [← sameMode, ← sameDepth]
  rfl

theorem retraces_step (scan : Scan) (character : Char) (retraces : scan.Retraces) :
    (scan.step character).Retraces := by
  let alone : Scan := { scan with rules := [] }
  have reread : Splitter.scan (character :: scan.pending).reverse = alone.step character := by
    rw [List.reverse_cons, scan_concat, retraces.pending]
  have same : scan.step character = (alone.step character).onto scan.rules :=
    step_onto alone scan.rules character
  have move := step_move alone character
  rw [same]
  generalize alone.step character = next at move reread
  cases move with
  | skip outside fresh layout =>
      have idle := idle_of_retraces retraces fresh
      refine ⟨?_, retraces.rules⟩
      change Splitter.scan scan.pending.reverse = { alone with mode := .plain }
      rw [retraces.pending]
      change alone = { alone with mode := .plain }
      rw [show alone = Scan.start from congrArg (fun scan => { scan with rules := [] }) idle]
      rfl
  | extend mode depth => exact ⟨reread, retraces.rules⟩
  | discard outside brace depth => exact ⟨rfl, retraces.rules⟩
  | emit outside ends =>
      refine ⟨rfl, fun rule member => ?_⟩
      rcases List.mem_cons.1 member with rfl | old
      · exact reread
      · exact retraces.rules rule old

theorem scan_retraces (css : Text) : (scan css).Retraces :=
  run_induction retraces_step Scan.start css ⟨rfl, fun _ => nofun⟩

/-- All of the text is pending: nothing of it was passed over, discarded or made a rule. -/
structure Pending (text : Text) : Prop where
  entire : (scan text).pending = text.reverse
  noRules : (scan text).rules = []

/-- A text that is a single rule: it is the one rule found in it. -/
def Whole (text : Text) : Prop := rules text = [⟨text⟩]

instance (text : Text) : Decidable (Whole text) :=
  inferInstanceAs (Decidable (rules text = [⟨text⟩]))

/-- The text of a rule, read on its own, is that rule again. -/
theorem whole_of_mem {css : Text} {rule : Rule} (member : rule ∈ rules css) : Whole rule.text := by
  have reread := (scan_retraces css).rules rule (List.mem_reverse.1 member)
  rw [Whole, rules, split, reread]
  rfl

section Whole

variable {text : Text}

theorem rules_scan_of_whole (whole : Whole text) : (scan text).rules = [⟨text⟩] := by
  have reversed : (scan text).rules.reverse = [⟨text⟩] := whole
  rw [← List.reverse_reverse (scan text).rules, reversed]
  rfl

/-- A whole rule uses up all of its text, so nothing is pending behind it. -/
theorem scan_of_whole (whole : Whole text) : scan text = Scan.idle [⟨text⟩] := by
  have found := rules_scan_of_whole whole
  have bound := size_run_le Scan.start text
  rw [← scan_eq_run, Scan.size, found] at bound
  simp only [List.flatMap_cons, List.flatMap_nil, List.length_append, List.length_nil, Scan.size,
    Scan.start] at bound
  have empty : (scan text).pending = [] := List.eq_nil_of_length_eq_zero (by omega)
  rw [← found]
  exact idle_of_retraces (scan_retraces text) empty

theorem run_whole (earlier : List Rule) (whole : Whole text) :
    (Scan.idle earlier).run text = Scan.idle (⟨text⟩ :: earlier) := by
  have onto := run_onto Scan.start earlier text
  rw [← scan_eq_run, scan_of_whole whole] at onto
  exact onto

theorem ne_nil_of_whole (whole : Whole text) : text ≠ [] := by
  rintro rfl
  exact absurd whole (by decide)

/-- Up to its last character a whole rule is pending, and that character makes it a rule. -/
theorem exists_last_step (whole : Whole text) :
    ∃ front character, text = front ++ [character] ∧ Pending front ∧
      (scan front).Outside ∧
      ((character = '}' ∧ (scan front).depth = 1) ∨
        (character = ';' ∧ (scan front).depth = 0 ∧ isStatement text.reverse = true)) := by
  obtain ⟨front, character, shape⟩ :=
    (List.eq_nil_or_concat text).resolve_left (ne_nil_of_whole whole)
  rw [List.concat_eq_append] at shape
  have notEarlier : (scan front).rules ≠ [⟨text⟩] := by
    intro found
    have bound := size_run_le Scan.start front
    rw [← scan_eq_run, Scan.size, found, shape] at bound
    simp only [List.flatMap_cons, List.flatMap_nil, List.length_append, List.length_singleton,
      List.length_nil, Scan.size, Scan.start] at bound
    omega
  have done : (scan front).step character = Scan.idle [⟨text⟩] := by
    rw [← scan_concat, ← shape]
    exact scan_of_whole whole
  have move := step_move (scan front) character
  rw [done] at move
  generalize finished : Scan.idle [⟨text⟩] = next at move
  cases move with
  | skip outside fresh layout => exact absurd (congrArg Scan.rules finished).symm notEarlier
  | extend mode depth => exact absurd (congrArg Scan.pending finished) nofun
  | discard outside brace depth => exact absurd (congrArg Scan.rules finished).symm notEarlier
  | emit outside ends =>
      obtain ⟨same, earlier⟩ := List.cons.inj (congrArg Scan.rules finished)
      have reversed : text.reverse = character :: (scan front).pending := by
        have turned : text = (character :: (scan front).pending).reverse :=
          congrArg Rule.text same
        exact List.reverse_eq_iff.2 turned
      refine ⟨front, character, shape, ⟨?_, earlier.symm⟩, outside, ?_⟩
      · rw [shape, List.reverse_concat] at reversed
        exact (List.cons.inj reversed).2.symm
      · rw [reversed]
        exact ends

theorem last_of_whole (whole : Whole text) :
    text.getLast? = some '}' ∨ text.getLast? = some ';' := by
  obtain ⟨front, character, shape, _, _, ends⟩ := exists_last_step whole
  rw [shape, List.getLast?_concat]
  rcases ends with ⟨brace, _⟩ | ⟨semicolon, _⟩
  · exact .inl (congrArg some brace)
  · exact .inr (congrArg some semicolon)

end Whole

theorem ne_of_layout {character other : Char} (layout : Text.isLayout character = true)
    (ink : Text.isLayout other = false) : character ≠ other := by
  rintro rfl
  rw [layout] at ink
  exact nomatch ink

theorem step_layout (earlier : List Rule) (character : Char)
    (layout : Text.isLayout character = true) :
    (Scan.idle earlier).step character = Scan.idle earlier := by
  have skipped : push character [] = [] := by
    rw [push, layout]
    rfl
  have notSlash : character ≠ '/' := ne_of_layout layout rfl
  have notOpening : character ≠ '{' := ne_of_layout layout rfl
  have notClosing : character ≠ '}' := ne_of_layout layout rfl
  have notEnding : character ≠ ';' := ne_of_layout layout rfl
  simp only [Scan.step, Scan.idle, Scan.start, Scan.plainStep, if_neg notSlash, if_neg notOpening,
    if_neg notClosing, skipped, notEnding, decide_false, Bool.false_and, Bool.false_eq_true,
    if_false]

theorem run_layout (earlier : List Rule) (text : Text)
    (layout : ∀ character ∈ text, Text.isLayout character = true) :
    (Scan.idle earlier).run text = Scan.idle earlier := by
  induction text with
  | nil => rfl
  | cons character rest induction =>
      rw [run_cons, step_layout earlier character (layout character List.mem_cons_self)]
      exact induction fun other member => layout other (List.mem_cons_of_mem character member)

/-- A sequence of texts, each of which takes the scan from rest to rest with at most
one rule more. -/
theorem run_sequence {Item : Type} (text : Item → Text) (rule? : Item → Option Rule)
    (items : List Item)
    (read : ∀ item ∈ items, ∀ earlier,
      (Scan.idle earlier).run (text item) = Scan.idle ((rule? item).toList ++ earlier))
    (earlier : List Rule) :
    (Scan.idle earlier).run (items.flatMap text) =
      Scan.idle ((items.filterMap rule?).reverse ++ earlier) := by
  induction items generalizing earlier with
  | nil => rfl
  | cons item rest induction =>
      rw [List.flatMap_cons, run_append, read item List.mem_cons_self,
        induction fun other member => read other (List.mem_cons_of_mem item member)]
      cases found : rule? item with
      | none => simp [found]
      | some rule => simp [found]

theorem rules_of_idle {css : Text} {found : List Rule} (atRest : scan css = Scan.idle found) :
    rules css = found.reverse := by
  rw [rules, split, atRest]
  rfl

end StylePurge.Splitter
