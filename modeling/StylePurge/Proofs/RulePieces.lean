import Mathlib.Data.List.Infix
import StylePurge.Proofs.RuleShape

/-!
A text as rules and the gaps between them. Splitting a text into rules loses only
layout, what a stray closing brace discards, and a last piece that never ends.
In the other direction, rules that are put side by side with layout between them
are split into the same rules.
-/

namespace StylePurge.Splitter

/-- A rule together with the text in front of it that belongs to no rule. -/
structure Piece where
  gap : Text
  rule : Rule

def Piece.text (piece : Piece) : Text := piece.gap ++ piece.rule.text

def Blank (text : Text) : Prop := ∀ character ∈ text, Text.isLayout character = true

theorem run_piece {piece : Piece} (blank : Blank piece.gap) (whole : Whole piece.rule.text)
    (earlier : List Rule) :
    (Scan.idle earlier).run piece.text = Scan.idle (piece.rule :: earlier) := by
  rw [Piece.text, run_append, run_layout earlier piece.gap blank, run_whole earlier whole]

/-- A rule of any text is self-contained and, read alone, is that rule again. Rules
of any texts, side by side or with layout between them, are split into just these. -/
theorem rules_rejoin :
    (∀ css, ∀ rule ∈ rules css, SelfContained rule.text ∧ rules rule.text = [rule]) ∧
      ∀ (pieces : List Piece) (trailing : Text),
        (∀ piece ∈ pieces, Blank piece.gap ∧ ∃ source, piece.rule ∈ rules source) →
          Blank trailing →
            rules (pieces.flatMap Piece.text ++ trailing) = pieces.map Piece.rule := by
  constructor
  · intro css rule member
    have whole := whole_of_mem member
    exact ⟨(whole_iff_self_contained rule.text).1 whole, whole⟩
  · intro pieces trailing known blank
    have read (piece : Piece) (member : piece ∈ pieces) (earlier : List Rule) :
        (Scan.idle earlier).run piece.text = Scan.idle (piece.rule :: earlier) := by
      obtain ⟨isBlank, source, found⟩ := known piece member
      exact run_piece isBlank (whole_of_mem found) earlier
    have joined := run_sequence Piece.text (fun piece => some piece.rule) pieces read []
    have atRest : scan (pieces.flatMap Piece.text ++ trailing) =
        Scan.idle (pieces.map Piece.rule).reverse := by
      rw [scan_eq_run, run_append, show Scan.start = Scan.idle [] from rfl, joined,
        run_layout _ trailing blank, List.append_nil, List.filterMap_eq_map']
    rw [rules_of_idle atRest, List.reverse_reverse]

theorem rules_rejoin_swapped :
    (⟨['@', 'b', ';']⟩ : Rule) ∈ rules ['/', '*', '{', '*', '/', 'a', '{', '}', '@', 'b', ';'] ∧
      SelfContained ['@', 'b', ';'] ∧
      rules ['\t', '@', 'b', ';', '/', '*', '{', '*', '/', 'a', '{', '}', ' '] =
        [⟨['@', 'b', ';']⟩, ⟨['/', '*', '{', '*', '/', 'a', '{', '}']⟩] := by
  let source : Text := ['/', '*', '{', '*', '/', 'a', '{', '}', '@', 'b', ';']
  have block : (⟨['/', '*', '{', '*', '/', 'a', '{', '}']⟩ : Rule) ∈ rules source := by decide
  have statement : (⟨['@', 'b', ';']⟩ : Rule) ∈ rules source := by decide
  refine ⟨statement, (rules_rejoin.1 source _ statement).1, ?_⟩
  refine rules_rejoin.2 [⟨['\t'], ⟨['@', 'b', ';']⟩⟩,
    ⟨[], ⟨['/', '*', '{', '*', '/', 'a', '{', '}']⟩⟩] [' '] ?_ (List.forall_mem_singleton.2 rfl)
  intro piece member
  rcases List.mem_pair.1 member with rfl | rfl
  · exact ⟨List.forall_mem_singleton.2 rfl, source, statement⟩
  · exact ⟨nofun, source, block⟩

/-- The next character stands outside comments and outside any block. -/
def AtTop (front : Text) : Prop := (lex front).isOpen = false ∧ nesting (lex front).code = 0

/-- A closing brace that closes nothing. -/
def HasStrayBrace (css : Text) : Prop := ∃ front, front ++ ['}'] <+: css ∧ AtTop front

instance (front : Text) : Decidable (AtTop front) :=
  inferInstanceAs (Decidable ((lex front).isOpen = false ∧ nesting (lex front).code = 0))

instance (css : Text) : Decidable (HasStrayBrace css) :=
  decidable_of_iff (∃ front ∈ css.inits, front ++ ['}'] <+: css ∧ AtTop front) <| by
    constructor
    · rintro ⟨front, _, found⟩
      exact ⟨front, found⟩
    · rintro ⟨front, isPrefix, top⟩
      refine ⟨front, ?_, isPrefix, top⟩
      rw [List.mem_inits]
      exact (List.prefix_append front ['}']).trans isPrefix

/-- What may be lost behind the text `before`: layout, or anything up to a stray
closing brace and layout behind that brace. -/
def Dropped (before gap : Text) : Prop :=
  Blank gap ∨
    ∃ discarded blank, gap = discarded ++ '}' :: blank ∧ Blank blank ∧ AtTop (before ++ discarded)

theorem blank_concat {text : Text} {character : Char} (blank : Blank text)
    (layout : Text.isLayout character = true) : Blank (text ++ [character]) := by
  intro other member
  rcases List.mem_append.1 member with old | new
  · exact blank other old
  · rwa [List.mem_singleton.1 new]

theorem dropped_concat {before gap : Text} {character : Char} (dropped : Dropped before gap)
    (layout : Text.isLayout character = true) : Dropped before (gap ++ [character]) := by
  rcases dropped with blank | ⟨discarded, blank, rfl, isBlank, top⟩
  · exact .inl (blank_concat blank layout)
  · refine .inr ⟨discarded, blank ++ [character], ?_, blank_concat isBlank layout, top⟩
    rw [List.append_assoc, List.cons_append]

/-- Without stray braces only layout is lost. -/
theorem blank_of_dropped {css before gap : Text} (dropped : Dropped before gap)
    (isPrefix : before ++ gap <+: css) (noStray : ¬HasStrayBrace css) : Blank gap := by
  rcases dropped with blank | ⟨discarded, blank, rfl, _, top⟩
  · exact blank
  · refine absurd ⟨before ++ discarded, List.IsPrefix.trans ⟨blank, ?_⟩ isPrefix, top⟩ noStray
    simp

/-- A scan cuts the text in front of it into the rules it has found with the gaps in
front of them, a last gap, and what is pending. -/
structure Scan.Cut (scan : Scan) (css : Text) (pieces : List Piece) (gap : Text) : Prop where
  text : css = pieces.flatMap Piece.text ++ (gap ++ scan.pending.reverse)
  rules : pieces.map Piece.rule = scan.rules.reverse
  gaps : ∀ earlier piece later, pieces = earlier ++ piece :: later →
    Dropped (earlier.flatMap Piece.text) piece.gap
  last : Dropped (pieces.flatMap Piece.text) gap

theorem gaps_concat {pieces : List Piece} {final : Piece}
    (gaps : ∀ earlier piece later, pieces = earlier ++ piece :: later →
      Dropped (earlier.flatMap Piece.text) piece.gap)
    (last : Dropped (pieces.flatMap Piece.text) final.gap) (earlier : List Piece) (piece : Piece)
    (later : List Piece) (parts : pieces ++ [final] = earlier ++ piece :: later) :
    Dropped (earlier.flatMap Piece.text) piece.gap := by
  rcases List.eq_nil_or_concat later with rfl | ⟨between, _, rfl⟩
  · obtain ⟨rfl, same⟩ := List.append_inj' parts rfl
    rw [← (List.cons.inj same).1]
    exact last
  · rw [List.concat_eq_append, ← List.cons_append, ← List.append_assoc] at parts
    exact gaps earlier piece between (List.append_inj' parts rfl).1

theorem cut_step {css : Text} {pieces : List Piece} {gap : Text}
    (cut : (scan css).Cut css pieces gap) (character : Char) :
    ∃ pieces gap, ((scan css).step character).Cut (css ++ [character]) pieces gap := by
  obtain ⟨text, found, gaps, last⟩ := cut
  have extended : css ++ [character] =
      pieces.flatMap Piece.text ++ (gap ++ (character :: (scan css).pending).reverse) := by
    rw [List.reverse_cons, ← List.append_assoc gap, ← List.append_assoc, ← text]
  have move := step_move (scan css) character
  generalize (scan css).step character = next at move
  cases move with
  | skip outside fresh layout =>
      refine ⟨pieces, gap ++ [character], ?_, found, gaps, dropped_concat last layout⟩
      rw [extended, fresh]
      simp
  | extend mode depth _ => exact ⟨pieces, gap, extended, found, gaps, last⟩
  | discard outside brace depth =>
      have top : AtTop (pieces.flatMap Piece.text ++ (gap ++ (scan css).pending.reverse)) := by
        rw [← text]
        exact ⟨(lex_is_open_iff css).2 outside, by rw [nesting_lex, depth]⟩
      refine ⟨pieces, gap ++ (character :: (scan css).pending).reverse, ?_, found, gaps,
        .inr ⟨gap ++ (scan css).pending.reverse, [], ?_, nofun, top⟩⟩
      · rw [extended, List.reverse_nil, List.append_nil]
      · simp [brace]
  | emit outside ends =>
      let final : Piece := ⟨gap, ⟨(character :: (scan css).pending).reverse⟩⟩
      refine ⟨pieces ++ [final], [], ?_, ?_, gaps_concat gaps last, .inl nofun⟩
      · rw [extended]
        simp [final, Piece.text]
      · simp [final, found]

theorem exists_cut (css : Text) : ∃ pieces gap, (scan css).Cut css pieces gap := by
  induction css using List.reverseRecOn with
  | nil => exact ⟨[], [], rfl, rfl, by simp, .inl nofun⟩
  | append_singleton css character induction =>
      obtain ⟨pieces, gap, cut⟩ := induction
      rw [scan_concat]
      exact cut_step cut character

/-- Every rule is a slice of the text, in order. In front of a rule only layout is
lost, or what a stray closing brace discards. What is left over holds no rule. -/
theorem split_gaps (css : Text) :
    ∃ (pieces : List Piece) (gap : Text),
      css = pieces.flatMap Piece.text ++ (gap ++ (split css).leftover) ∧
        pieces.map Piece.rule = rules css ∧
        (∀ earlier piece later, pieces = earlier ++ piece :: later →
          Dropped (earlier.flatMap Piece.text) piece.gap) ∧
        Dropped (pieces.flatMap Piece.text) gap ∧
        rules (split css).leftover = [] ∧
        (∀ front, front <+: (split css).leftover → ¬SelfContained front) ∧
        (¬HasStrayBrace css → (∀ piece ∈ pieces, Blank piece.gap) ∧ Blank gap) := by
  obtain ⟨pieces, gap, cut⟩ := exists_cut css
  have noRules : rules (split css).leftover = [] := by
    have alone := congrArg Scan.rules (scan_retraces css).pending
    exact congrArg List.reverse alone
  refine ⟨pieces, gap, cut.text, cut.rules, cut.gaps, cut.last, noRules, ?_, ?_⟩
  · intro front isPrefix contained
    have whole := (whole_iff_self_contained front).2 contained
    have kept := rules_of_prefix isPrefix
    rw [noRules, whole, List.prefix_nil] at kept
    exact nomatch kept
  · intro noStray
    constructor
    · intro piece member
      obtain ⟨earlier, later, rfl⟩ := List.append_of_mem member
      apply blank_of_dropped (cut.gaps earlier piece later rfl) _ noStray
      refine ⟨piece.rule.text ++ (later.flatMap Piece.text ++ (gap ++ (split css).leftover)), ?_⟩
      refine Eq.trans ?_ cut.text.symm
      simp [Piece.text, split, Scan.finish]
    · apply blank_of_dropped cut.last _ noStray
      refine ⟨(split css).leftover, ?_⟩
      rw [List.append_assoc]
      exact cut.text.symm

theorem split_gaps_closing_brace_in_comment :
    ¬HasStrayBrace ['a', '{', '/', '*', '}', '*', '/', '}', ' ', 'b'] ∧
      ∃ (pieces : List Piece) (gap : Text),
        ['a', '{', '/', '*', '}', '*', '/', '}', ' ', 'b'] =
            pieces.flatMap Piece.text ++ (gap ++ ['b']) ∧
          (∀ piece ∈ pieces, Blank piece.gap) ∧ Blank gap := by
  have noStray : ¬HasStrayBrace ['a', '{', '/', '*', '}', '*', '/', '}', ' ', 'b'] := by decide
  obtain ⟨pieces, gap, text, _, _, _, _, _, blank⟩ :=
    split_gaps ['a', '{', '/', '*', '}', '*', '/', '}', ' ', 'b']
  exact ⟨noStray, pieces, gap, text, blank noStray⟩

end StylePurge.Splitter
