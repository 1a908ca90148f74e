import StylePurge.Proofs.RuleLexing

/-!
The shape of a rule. A rule is either one block with a header, whose outermost
brace closes at its last character, or a statement that ends at its first
semicolon. This is said of the text alone, by lexing it, and it is exactly what
makes a text one rule. Rules therefore can be taken from their stylesheets and
put side by side.
-/

namespace StylePurge.Splitter

/-- Code in front of the first brace. In a text that starts with an at-sign a
semicolon would end it. -/
structure Header (text header : Text) : Prop where
  noOpening : '{' ∉ header
  noClosing : '}' ∉ header
  unended : text.head? = some '@' → ';' ∉ header

/-- A block that is opened behind the header stays open through the body. -/
def Nested (header body : Text) : Prop :=
  ∀ front, front <+: body → 0 < nesting (header ++ '{' :: front)

structure Block (text header body : Text) : Prop where
  lexed : lex text = ⟨header ++ '{' :: body ++ ['}'], false⟩
  headed : Header text header
  nested : Nested header body
  closed : nesting (header ++ '{' :: body ++ ['}']) = 0
  last : text.getLast? = some '}'

structure Statement (text body : Text) : Prop where
  lexed : lex text = ⟨body ++ [';'], false⟩
  noOpening : '{' ∉ body
  noClosing : '}' ∉ body
  noEnding : ';' ∉ body
  first : text.head? = some '@'
  last : text.getLast? = some ';'

structure SelfContained (text : Text) : Prop where
  ink : ∃ first rest, text = first :: rest ∧ Text.isLayout first = false
  shape : (∃ header body, Block text header body) ∨ ∃ body, Statement text body

/-- What the code of a pending text looks like. -/
def Unfinished (text : Text) : Prop :=
  Header text (lex text).code ∨
    ∃ header body, (lex text).code = header ++ '{' :: body ∧ Header text header ∧
      Nested header body

section Header

variable {text header body : Text} {character : Char}

theorem header_concat (shape : Header text header) (fresh : text = [] → header = []) :
    Header (text ++ [character]) header where
  noOpening := shape.noOpening
  noClosing := shape.noClosing
  unended := by
    intro starts
    cases text with
    | nil =>
        rw [fresh rfl]
        exact List.not_mem_nil
    | cons first rest => exact shape.unended starts

theorem header_mono {shorter : Text} (shape : Header text header)
    (isPrefix : shorter <+: header) : Header text shorter where
  noOpening := fun member => shape.noOpening (isPrefix.mem member)
  noClosing := fun member => shape.noClosing (isPrefix.mem member)
  unended := fun starts member => shape.unended starts (isPrefix.mem member)

theorem nested_nil (shape : Header text header) : Nested header [] := by
  intro front isPrefix
  rw [List.prefix_nil.1 isPrefix, nesting_concat, nesting_flat shape.noOpening shape.noClosing]
  decide

theorem nested_mono {shorter : Text} (nested : Nested header body)
    (isPrefix : shorter <+: body) : Nested header shorter :=
  fun front inside => nested front (inside.trans isPrefix)

theorem nest_pos {depth : Nat} (nested : 0 < depth) (deep : character = '}' → 1 < depth) :
    0 < nest depth character := by
  unfold nest
  split
  · omega
  · split
    · rename_i closing
      have := deep closing
      omega
    · exact nested

theorem nested_concat (nested : Nested header body)
    (deep : character = '}' → 1 < nesting (header ++ '{' :: body)) :
    Nested header (body ++ [character]) := by
  intro front isPrefix
  rcases List.prefix_concat_iff.1 isPrefix with whole | shorter
  · have behind : header ++ '{' :: (body ++ [character]) =
        (header ++ '{' :: body) ++ [character] := by simp
    rw [whole, behind, nesting_concat]
    exact nest_pos (nested body (List.prefix_refl body)) deep
  · exact nested front shorter

end Header

theorem is_statement_reverse (text : Text) :
    isStatement text.reverse = true ↔ text.head? = some '@' := by
  rw [isStatement, List.getLast?_reverse, beq_iff_eq]

theorem pending_nil : Pending [] := ⟨rfl, rfl⟩

theorem pending_of_concat {text : Text} {character : Char}
    (pending : Pending (text ++ [character])) :
    Pending text ∧
      ((scan text).Outside → ¬(scan text).Ends character) := by
  obtain ⟨whole, noRules⟩ := pending
  rw [scan_concat] at whole noRules
  rw [List.reverse_concat] at whole
  have move := step_move (scan text) character
  generalize (scan text).step character = next at move whole noRules
  cases move with
  | skip outside fresh layout =>
      rw [show (scan text).pending = [] from fresh] at whole
      exact nomatch whole
  | extend mode depth goesOn => exact ⟨⟨(List.cons.inj whole).2, noRules⟩, goesOn⟩
  | discard outside brace depth => exact nomatch whole
  | emit outside ends => exact nomatch whole

theorem pending_of_prefix {front text : Text} (isPrefix : front <+: text) (pending : Pending text) :
    Pending front := by
  obtain ⟨back, rfl⟩ := isPrefix
  induction back using List.reverseRecOn with
  | nil => rwa [List.append_nil] at pending
  | append_singleton back character induction =>
      rw [← List.append_assoc] at pending
      exact induction (pending_of_concat pending).1

theorem ink_of_pending {first : Char} {rest : Text} (pending : Pending (first :: rest)) :
    Text.isLayout first = false := by
  have front : Pending [first] := pending_of_prefix ⟨rest, rfl⟩ pending
  rw [Bool.eq_false_iff]
  intro layout
  have passed : scan [first] = Scan.idle [] := step_layout [] first layout
  have whole := front.entire
  rw [passed] at whole
  exact nomatch whole

/-- Where a pending text goes on with code, that code ends nothing. -/
theorem unfinished_code {text : Text} {character : Char} (pending : Pending text)
    (unfinished : Unfinished text)
    (read : (lex (text ++ [character])).code = (lex text).code ++ [character])
    (goesOn : ¬(scan text).Ends character) : Unfinished (text ++ [character]) := by
  have depth := nesting_lex text
  have deep : character = '}' → 1 < nesting (lex text).code := by
    intro closing
    rw [depth]
    by_contra shallow
    exact goesOn (.inl ⟨closing, by omega⟩)
  rcases unfinished with header | ⟨header, body, code, shape, nested⟩
  · have longer : Header (text ++ [character]) (lex text).code :=
      header_concat header fun empty => by rw [empty]; rfl
    have flat := nesting_flat header.noOpening header.noClosing
    by_cases opening : character = '{'
    · refine .inr ⟨(lex text).code, [], ?_, longer, nested_nil header⟩
      rw [read, opening]
    · refine .inl ?_
      rw [read]
      constructor
      · simp [header.noOpening, Ne.symm opening]
      · have notClosing : character ≠ '}' := by
          intro closing
          have := deep closing
          omega
        simp [header.noClosing, Ne.symm notClosing]
      · intro starts
        have notEnding : character ≠ ';' := by
          intro ending
          apply goesOn
          refine .inr ⟨ending, by rw [← depth, flat], ?_⟩
          rw [pending.entire, ← List.reverse_concat, is_statement_reverse]
          exact starts
        simp [longer.unended starts, Ne.symm notEnding]
  · rw [code] at deep
    refine .inr ⟨header, body ++ [character], ?_, header_concat shape ?_, nested_concat nested deep⟩
    · rw [read, code, List.append_assoc, List.cons_append]
    · rintro rfl
      exact absurd code.symm (by simp [lex, lexFrom])

/-- A character of a comment is no code, and with a slash in front of it it can
only take that slash out of the code. -/
theorem unfinished_comment {text dropped : Text} {character : Char} (unfinished : Unfinished text)
    (nonempty : text ≠ []) (noOpening : '{' ∉ dropped)
    (read : (lex text).code = (lex (text ++ [character])).code ++ dropped) :
    Unfinished (text ++ [character]) := by
  have longer {header : Text} (shape : Header text header) :
      Header (text ++ [character]) header :=
    header_concat shape fun empty => absurd empty nonempty
  rcases unfinished with header | ⟨header, body, code, shape, nested⟩
  · rw [read] at header
    exact .inl (longer (header_mono header (List.prefix_append _ dropped)))
  · rw [read] at code
    rcases List.append_eq_append_iff.1 code with
      ⟨between, _, inside⟩ | ⟨between, remains, inside⟩
    · exact absurd (by simp [inside]) noOpening
    · cases between with
      | nil => exact absurd (by simp [show dropped = '{' :: body from inside.symm]) noOpening
      | cons first shorter =>
          obtain ⟨rfl, rfl⟩ := List.cons.inj inside
          exact .inr ⟨header, shorter, remains, longer shape,
            nested_mono nested (List.prefix_append shorter dropped)⟩

theorem unfinished_of_pending (text : Text) (pending : Pending text) : Unfinished text := by
  induction text using List.reverseRecOn with
  | nil => exact .inl ⟨List.not_mem_nil, List.not_mem_nil, fun _ => List.not_mem_nil⟩
  | append_singleton text character induction =>
      obtain ⟨earlier, goesOn⟩ := pending_of_concat pending
      have unfinished := induction earlier
      have nonempty (notPlain : (scan text).mode ≠ .plain) : text ≠ [] := by
        rintro rfl
        exact notPlain rfl
      by_cases outside : (scan text).Outside
      · by_cases opens : (scan text).mode = .slash ∧ character = '*'
        · obtain ⟨slash, rfl⟩ := opens
          exact unfinished_comment unfinished (nonempty (by simp [slash])) (by decide)
            (lex_concat_opener slash)
        · have read := lex_concat_code outside fun slash star => opens ⟨slash, star⟩
          exact unfinished_code earlier unfinished (congrArg Lexed.code read) (goesOn outside)
      · have read := lex_concat_inside character outside
        exact unfinished_comment unfinished (nonempty fun plain => outside (.inl plain))
          List.not_mem_nil (by rw [read, List.append_nil])

theorem self_contained_of_whole {text : Text} (whole : Whole text) : SelfContained text := by
  obtain ⟨front, character, rfl, pending, outside, ends⟩ := exists_last_step whole
  have unfinished := unfinished_of_pending front pending
  have depth := nesting_lex front
  have notStar : character ≠ '*' := by
    rcases ends with ⟨rfl, _⟩ | ⟨rfl, _⟩ <;> decide
  have read := lex_concat_code outside fun _ => notStar
  constructor
  · cases front with
    | nil => exact ⟨character, [], rfl, by rcases ends with ⟨rfl, _⟩ | ⟨rfl, _⟩ <;> rfl⟩
    | cons first rest => exact ⟨first, rest ++ [character], rfl, ink_of_pending pending⟩
  · rcases ends with ⟨rfl, one⟩ | ⟨rfl, zero, statement⟩
    · rcases unfinished with header | ⟨header, body, code, shape, nested⟩
      · have flat := nesting_flat header.noOpening header.noClosing
        omega
      · rw [code] at depth read
        refine .inl ⟨header, body, read, header_concat shape ?_, nested, ?_, by simp⟩
        · rintro rfl
          exact absurd code.symm (by simp [lex, lexFrom])
        · rw [nesting_concat, depth, one]
          rfl
    · rcases unfinished with header | ⟨header, body, code, shape, nested⟩
      · have starts := (is_statement_reverse _).1 statement
        have longer : Header (front ++ [';']) (lex front).code :=
          header_concat header fun empty => by rw [empty]; rfl
        exact .inr ⟨_, read, header.noOpening, header.noClosing, longer.unended starts, starts,
          by simp⟩
      · have deep := nested body (List.prefix_refl body)
        rw [← code] at deep
        omega

theorem code_ne_nil {isOpen : Bool} {text : Text} (closed : (lexFrom isOpen text).isOpen = false)
    (nonempty : text ≠ []) (last : text.getLast? ≠ some '/') : (lexFrom isOpen text).code ≠ [] := by
  fun_induction lexFrom isOpen text with
  | case1 isOpen => exact absurd rfl nonempty
  | case2 rest induction =>
      cases rest with
      | nil => exact nomatch closed
      | cons first rest => exact induction closed (by simp) (by simpa using last)
  | case3 character rest notOpener induction => simp [Lexed.prepend]
  | case4 rest induction =>
      cases rest with
      | nil => exact absurd rfl last
      | cons first rest => exact induction closed (by simp) (by simpa using last)
  | case5 character rest notCloser induction =>
      cases rest with
      | nil => exact nomatch closed
      | cons first rest => exact induction closed (by simp) (by simpa using last)

theorem prefix_of_append_concat {front back whole : Text} {last : Char} (nonempty : back ≠ [])
    (same : front ++ back = whole ++ [last]) : front <+: whole := by
  obtain ⟨earlier, character, rfl⟩ := (List.eq_nil_or_concat back).resolve_left nonempty
  rw [List.concat_eq_append, ← List.append_assoc] at same
  exact ⟨earlier, (List.append_inj' same rfl).1⟩

theorem prefix_block_cases {front header body : Text} (isPrefix : front <+: header ++ '{' :: body) :
    front <+: header ∨ ∃ inner, inner <+: body ∧ front = header ++ '{' :: inner := by
  obtain ⟨back, same⟩ := isPrefix
  rcases List.append_eq_append_iff.1 same with ⟨between, longer, _⟩ | ⟨between, longer, inside⟩
  · exact .inl ⟨between, longer.symm⟩
  · cases between with
    | nil => exact .inl (by simp [longer])
    | cons first inner =>
        obtain ⟨rfl, rfl⟩ := List.cons.inj inside
        exact .inr ⟨inner, List.prefix_append inner back, longer⟩

/-- Code up to a character that is not the last one comes before the last one. -/
theorem code_prefix_within {front back whole : Text} {character last : Char}
    (outside : (scan front).Outside)
    (notStar : character ≠ '*') (notSlash : character ≠ '/') (within : back ≠ [])
    (lexed : lex (front ++ character :: back) = ⟨whole ++ [last], false⟩)
    (ending : (front ++ character :: back).getLast? = some last) (lastNotSlash : last ≠ '/') :
    (lex front).code ++ [character] <+: whole := by
  have read : lex (front ++ character :: back) =
      (lexFrom false back).prepend ((lex front).code ++ [character]) :=
    lex_append_code outside (fun _ => notStar) fun slash => absurd slash notSlash
  rw [read] at lexed
  have backLast : back.getLast? = some last := by
    obtain ⟨earlier, final, rfl⟩ := (List.eq_nil_or_concat back).resolve_left within
    have parts : front ++ character :: earlier.concat final =
        (front ++ character :: earlier) ++ [final] := by simp
    rw [parts, List.getLast?_concat] at ending
    rw [List.concat_eq_append, List.getLast?_concat, ending]
  have nonempty : (lexFrom false back).code ≠ [] := by
    apply code_ne_nil (congrArg Lexed.isOpen lexed) within
    rw [backLast]
    exact fun same => lastNotSlash (Option.some.inj same)
  exact prefix_of_append_concat nonempty (congrArg Lexed.code lexed)

/-- Inside a self-contained text no character ends what is pending. -/
theorem not_ends_within {front back : Text} {character : Char}
    (contained : SelfContained (front ++ character :: back)) (pending : Pending front)
    (outside : (scan front).Outside) (within : back ≠ []) :
    ¬(scan front).Ends character := by
  intro ends
  have notStar : character ≠ '*' := by rcases ends with ⟨rfl, _⟩ | ⟨rfl, _⟩ <;> decide
  have notSlash : character ≠ '/' := by rcases ends with ⟨rfl, _⟩ | ⟨rfl, _⟩ <;> decide
  have depth := nesting_lex front
  rcases contained.shape with ⟨header, body, block⟩ | ⟨body, statement⟩
  · have isPrefix := code_prefix_within outside notStar notSlash within block.lexed block.last
      (by decide)
    rcases prefix_block_cases isPrefix with inHeader | ⟨inner, inBody, code⟩
    · have member : character ∈ header := inHeader.mem (by simp)
      rcases ends with ⟨rfl, _⟩ | ⟨rfl, _, statement⟩
      · exact block.headed.noClosing member
      · rw [pending.entire, ← List.reverse_concat, is_statement_reverse] at statement
        exact block.headed.unended (by simpa using statement) member
    · have deep := block.nested inner inBody
      rw [← code, nesting_concat, depth] at deep
      rcases ends with ⟨rfl, shallow⟩ | ⟨rfl, zero, _⟩
      · rw [nest_closing] at deep
        omega
      · rw [nest_other (by decide) (by decide)] at deep
        omega
  · have isPrefix := code_prefix_within outside notStar notSlash within statement.lexed
      statement.last (by decide)
    have member : character ∈ body := isPrefix.mem (by simp)
    rcases ends with ⟨rfl, _⟩ | ⟨rfl, _⟩
    · exact statement.noClosing member
    · exact statement.noEnding member

theorem pending_within {text front back : Text} (contained : SelfContained text)
    (parts : text = front ++ back) (within : back ≠ []) : Pending front := by
  induction front using List.reverseRecOn generalizing back with
  | nil => exact pending_nil
  | append_singleton front character induction =>
      have split : text = front ++ character :: back := by rw [parts, List.append_assoc]; rfl
      have pending := induction split (List.cons_ne_nil character back)
      rw [split] at contained
      have goesOn (outside : (scan front).Outside) :=
        not_ends_within contained pending outside within
      have move := step_move (scan front) character
      rw [← scan_concat] at move
      generalize next : scan (front ++ [character]) = after at move
      cases move with
      | skip outside fresh layout =>
          rw [pending.entire, List.reverse_eq_nil_iff] at fresh
          subst fresh
          obtain ⟨first, rest, same, ink⟩ := contained.ink
          rw [List.nil_append, List.cons.injEq] at same
          rw [← same.1, layout] at ink
          exact nomatch ink
      | extend mode depth _ =>
          constructor
          · rw [next, List.reverse_concat, ← pending.entire]
          · rw [next]
            exact pending.noRules
      | discard outside brace depth => exact absurd (.inl ⟨brace, by omega⟩) (goesOn outside)
      | emit outside ends =>
          rcases ends with ⟨brace, depth⟩ | ending
          · exact absurd (.inl ⟨brace, by omega⟩) (goesOn outside)
          · exact absurd (.inr ending) (goesOn outside)

/-- Code at the end of a text that is no delimiter is read outside comments. -/
theorem code_before_last {front whole : Text} {character : Char} (notStar : character ≠ '*')
    (notSlash : character ≠ '/')
    (lexed : lex (front ++ [character]) = ⟨whole ++ [character], false⟩) :
    (scan front).Outside ∧ (lex front).code = whole := by
  have outside : (scan front).Outside := by
    have closed := (lex_is_open_iff _).1 (congrArg Lexed.isOpen lexed)
    rw [scan_concat] at closed
    cases mode : (scan front).mode with
    | plain => exact .inl mode
    | slash => exact .inr mode
    | inside => simp [Scan.Outside, Scan.step, mode, notStar] at closed
    | star => simp [Scan.Outside, Scan.step, mode, notStar, notSlash] at closed
  have code := congrArg Lexed.code ((lex_concat_code outside fun _ => notStar).symm.trans lexed)
  exact ⟨outside, (List.append_inj' code rfl).1⟩

theorem whole_of_ends {front : Text} {character : Char} (pending : Pending front)
    (outside : (scan front).Outside)
    (ends : (scan front).Ends character) (deep : character = '}' → 0 < (scan front).depth) :
    Whole (front ++ [character]) := by
  have move := step_move (scan front) character
  rw [← scan_concat] at move
  generalize next : scan (front ++ [character]) = after at move
  cases move with
  | skip outside fresh layout =>
      rcases ends with ⟨rfl, _⟩ | ⟨rfl, _⟩ <;> exact nomatch layout
  | extend mode depth goesOn => exact absurd ends (goesOn outside)
  | discard outside brace depth =>
      have := deep brace
      omega
  | emit _ _ =>
      rw [Whole, rules, split, next, pending.entire, pending.noRules]
      simp [Scan.finish]

theorem whole_of_self_contained {text : Text} (contained : SelfContained text) : Whole text := by
  obtain ⟨first, rest, nonempty, _⟩ := contained.ink
  obtain ⟨front, last, rfl⟩ :=
    (List.eq_nil_or_concat text).resolve_left (by rw [nonempty]; exact List.cons_ne_nil first rest)
  rw [List.concat_eq_append] at contained ⊢
  have pending := pending_within contained rfl (List.cons_ne_nil last [])
  have depth := nesting_lex front
  rcases contained.shape with ⟨header, body, block⟩ | ⟨body, statement⟩
  · obtain rfl : last = '}' := by simpa using block.last
    obtain ⟨outside, code⟩ := code_before_last (by decide) (by decide) block.lexed
    have deep := block.nested body (List.prefix_refl body)
    have shallow := block.closed
    rw [← code, nesting_concat, depth, nest_closing] at shallow
    rw [← code, depth] at deep
    exact whole_of_ends pending outside (.inl ⟨rfl, by omega⟩) fun _ => deep
  · obtain rfl : last = ';' := by simpa using statement.last
    obtain ⟨outside, code⟩ := code_before_last (by decide) (by decide) statement.lexed
    have flat := nesting_flat statement.noOpening statement.noClosing
    rw [← code, depth] at flat
    refine whole_of_ends pending outside (.inr ⟨rfl, flat, ?_⟩) nofun
    rw [pending.entire, ← List.reverse_concat, is_statement_reverse]
    exact statement.first

/-- A text is one rule exactly when it is self-contained. -/
theorem whole_iff_self_contained (text : Text) : Whole text ↔ SelfContained text :=
  ⟨self_contained_of_whole, whole_of_self_contained⟩

end StylePurge.Splitter
