import Mathlib.Data.List.Infix
import StylePurge.Proofs.CommentCode
import StylePurge.Proofs.SelectorNames

/-!
Splitting a stylesheet that still has its comments. The scan of the commented text and the
scan of its code go side by side: they stand at the same depth, and what is pending and the
rules found are the same but for comments and the layout that these leave in front. A
comment in front of an at-sign is where they part, because a statement is told by the
first character of what is pending.
-/

namespace StylePurge

/-- The rule without its comments and without the layout that they leave in front. -/
def Rule.bare (rule : Rule) : Rule := ⟨(Comment.strip rule.text).dropWhile Text.isLayout⟩

namespace Splitter

/-- What lexing leaves of a text, without the layout in front. -/
def bareText (text : Text) : Text := (lex text).code.dropWhile Text.isLayout

/-- A semicolon would end a statement here if no comment stood in front of its at-sign. -/
structure Scan.Hidden (scan : Scan) : Prop where
  outside : scan.Outside
  top : scan.depth = 0
  covered : scan.pending.getLast? ≠ some '@'
  statement : (bareText scan.pending.reverse).head? = some '@'

instance (scan : Scan) : Decidable scan.Hidden :=
  decidable_of_iff
    (scan.Outside ∧ scan.depth = 0 ∧ scan.pending.getLast? ≠ some '@' ∧
      (bareText scan.pending.reverse).head? = some '@')
    ⟨fun ⟨outside, top, covered, statement⟩ => ⟨outside, top, covered, statement⟩,
      fun ⟨outside, top, covered, statement⟩ => ⟨outside, top, covered, statement⟩⟩

/-- No semicolon stands where a comment hides the statement that it would end. -/
def Shown (css : Text) : Prop := ∀ front, front ++ [';'] <+: css → ¬(scan front).Hidden

instance (css : Text) : Decidable (Shown css) :=
  decidable_of_iff (∀ front ∈ css.inits, front ++ [';'] <+: css → ¬(scan front).Hidden)
    ⟨fun shown front ends =>
        shown front ((List.mem_inits _ _).2 ((List.prefix_append _ _).trans ends)) ends,
      fun shown front _ ends => shown front ends⟩

/-- The scan of a commented text and the scan of its code. -/
structure Related (scan bare : Scan) : Prop where
  depth : bare.depth = scan.depth
  pending : bare.pending.reverse = bareText scan.pending.reverse
  rules : bare.rules = scan.rules.map fun rule => ⟨bareText rule.text⟩

variable {css text : Text} {character : Char} {scan bare : Scan}

theorem push_drop (text : Text) (character : Char) :
    (push character (text.dropWhile Text.isLayout).reverse).reverse =
      (text ++ [character]).dropWhile Text.isLayout := by
  rw [List.dropWhile_append, push, List.isEmpty_reverse]
  by_cases empty : (text.dropWhile Text.isLayout).isEmpty = true
  · rw [if_pos empty, List.isEmpty_iff.1 empty]
    cases layout : Text.isLayout character with
    | true => simp [layout]
    | false => simp [layout]
  · rw [if_neg empty]
    simp [empty]

/-- A character of code is pushed alike in both scans. -/
theorem push_bare (related : Related scan bare)
    (reread : Splitter.scan scan.pending.reverse = { scan with rules := [] })
    (outside : scan.Outside) (goesOn : scan.mode = .slash → character ≠ '*') :
    (push character bare.pending).reverse = bareText (push character scan.pending).reverse := by
  have own : bare.pending = (bareText scan.pending.reverse).reverse := by
    rw [← related.pending, List.reverse_reverse]
  rcases push_cases character scan.pending with ⟨fresh, layout, pushed⟩ | pushed
  · rw [pushed, own, fresh]
    have skipped : push character [] = [] := by
      rw [push, layout]
      rfl
    exact congrArg List.reverse skipped
  · have code : (lex (scan.pending.reverse ++ [character])).code =
        (lex scan.pending.reverse).code ++ [character] := by
      rw [lex_concat_code (by rw [reread]; exact outside) (by rw [reread]; exact goesOn)]
    rw [pushed, own, List.reverse_cons, bareText, bareText, code, push_drop]

theorem related_plain_step (related : Related scan bare)
    (pushed : (push character bare.pending).reverse =
      bareText (push character scan.pending).reverse)
    (statement : character = ';' → scan.depth = 0 →
      isStatement (push character bare.pending) = isStatement (push character scan.pending)) :
    Related (scan.plainStep character) (bare.plainStep character) := by
  obtain ⟨depth, pending, rules⟩ := related
  have found : (⟨(push character bare.pending).reverse⟩ : Rule) :: bare.rules =
      ((⟨(push character scan.pending).reverse⟩ : Rule) :: scan.rules).map
        fun rule => ⟨bareText rule.text⟩ := by
    rw [List.map_cons, pushed, rules]
  unfold Scan.plainStep
  by_cases slash : character = '/'
  · simp only [if_pos slash]
    exact ⟨depth, pushed, rules⟩
  by_cases opening : character = '{'
  · simp only [if_neg slash, if_pos opening]
    exact ⟨congrArg (· + 1) depth, pushed, rules⟩
  by_cases closing : character = '}'
  · simp only [if_neg slash, if_neg opening, if_pos closing, depth]
    split
    · exact ⟨rfl, rfl, rules⟩
    · exact ⟨rfl, rfl, found⟩
    · exact ⟨rfl, pushed, rules⟩
  simp only [if_neg slash, if_neg opening, if_neg closing, depth]
  by_cases ends : character = ';' ∧ scan.depth = 0
  · rw [statement ends.1 ends.2]
    split
    · exact ⟨rfl, rfl, found⟩
    · exact ⟨rfl, pushed, rules⟩
  · have goesOn (pending : Text) :
        (character = ';' && scan.depth == 0 && isStatement pending) = false := by
      rw [Bool.and_eq_false_iff]
      left
      simpa using ends
    simp only [goesOn, Bool.false_eq_true, if_false]
    exact ⟨rfl, pushed, rules⟩

theorem is_statement_push (pending : Text) :
    isStatement (push ';' pending) = (pending.getLast? == some '@') := by
  rw [push_of_not_layout (by decide), isStatement]
  cases pending with
  | nil => rfl
  | cons character rest => rw [List.getLast?_cons_cons]

theorem bare_text_at (rest : Text) : (bareText ('@' :: rest)).head? = some '@' := by
  have code : (lex ('@' :: rest)).code = '@' :: (lex rest).code := by
    rw [lex, lex_code fun same => absurd same (by decide)]
    rfl
  rw [bareText, code]
  rfl

/-- Unless a comment hides it, a statement is one in both scans. -/
theorem is_statement_bare (related : Related scan bare) (outside : scan.Outside)
    (top : scan.depth = 0) (shown : ¬scan.Hidden) :
    isStatement (push ';' bare.pending) = isStatement (push ';' scan.pending) := by
  have own : bare.pending.getLast? = (bareText scan.pending.reverse).head? := by
    rw [← related.pending, List.head?_reverse]
  rw [is_statement_push, is_statement_push, own]
  by_cases starts : scan.pending.getLast? = some '@'
  · obtain ⟨rest, shape⟩ := List.getLast?_eq_some_iff.1 starts
    have here : (bareText scan.pending.reverse).head? = some '@' := by
      rw [shape, List.reverse_append, List.reverse_singleton, List.singleton_append, bare_text_at]
    rw [here, starts]
  · have missing : (bareText scan.pending.reverse).head? ≠ some '@' := fun found =>
      shown ⟨outside, top, starts, found⟩
    rw [beq_eq_false_iff_ne.2 missing, beq_eq_false_iff_ne.2 starts]

theorem related_code (related : Related scan bare)
    (reread : Splitter.scan scan.pending.reverse = { scan with rules := [] })
    (outside : scan.Outside) (goesOn : scan.mode = .slash → character ≠ '*')
    (shown : character = ';' → ¬scan.Hidden) :
    Related (scan.plainStep character) (bare.plainStep character) := by
  apply related_plain_step related (push_bare related reread outside goesOn)
  rintro rfl top
  exact is_statement_bare related outside top (shown rfl)

/-- A character of a comment changes nothing but the commented text that is pending. -/
theorem related_inside (related : Related scan bare)
    (reread : Splitter.scan scan.pending.reverse = { scan with rules := [] })
    (inside : ¬scan.Outside) (character : Char) : Related (scan.step character) bare := by
  have code : (lex (scan.pending.reverse ++ [character])).code = (lex scan.pending.reverse).code :=
    lex_concat_inside character (by rw [reread]; exact inside)
  rw [step_of_inside inside]
  refine ⟨related.depth, ?_, related.rules⟩
  rw [List.reverse_cons, bareText, code]
  exact related.pending

/-- A star that completes an opener takes back the slash, which is no more than pending. -/
theorem related_opener (related : Related scan (bare.plainStep '/'))
    (reread : Splitter.scan scan.pending.reverse = { scan with rules := [] })
    (slash : scan.mode = .slash) : Related (scan.step '*') bare := by
  have pushed : bare.plainStep '/' =
      { bare with mode := .slash, pending := '/' :: bare.pending } := by
    rw [Scan.plainStep, push_of_not_layout (by decide)]
    rfl
  have code : (lex scan.pending.reverse).code =
      (lex (scan.pending.reverse ++ ['*'])).code ++ ['/'] :=
    lex_concat_opener (by rw [reread]; exact slash)
  obtain ⟨depth, pending, rules⟩ := related
  rw [pushed] at depth pending rules
  rw [step_of_opener slash]
  refine ⟨depth, ?_, rules⟩
  rw [List.reverse_cons, bareText, code, ← push_drop, push_of_not_layout (by decide),
    List.reverse_cons, List.reverse_reverse] at pending
  rw [List.reverse_cons]
  exact List.append_cancel_right pending

theorem related_scan (css : Text) (unjoined : Unjoined css) (shown : Shown css) :
    Related (Splitter.scan css) (Splitter.scan (lex css).code) := by
  induction css using List.reverseRecOn with
  | nil => exact ⟨rfl, rfl, rfl⟩
  | append_singleton css character induction =>
      have earlier := unjoined_of_concat unjoined
      have related := induction earlier fun front ends =>
        shown front (ends.trans (List.prefix_append css [character]))
      have reread := (scan_retraces css).pending
      rw [scan_concat]
      rcases lex_concat_cases css character with
        ⟨outside, goesOn, code⟩ | ⟨slash, rfl, code⟩ | ⟨inside, code⟩
      · have bareOutside := outside_of_plain earlier
        have bareGoesOn : (Splitter.scan (lex css).code).mode = .slash → character ≠ '*' := by
          intro slash
          rw [mode_of_plain earlier] at slash
          split at slash
          · rename_i last
            exact not_star_of_unjoined unjoined code last
          · exact nomatch slash
        rw [code, scan_concat, step_of_outside outside goesOn,
          step_of_outside bareOutside bareGoesOn]
        apply related_code related reread outside goesOn
        rintro rfl
        exact shown css (List.prefix_refl _)
      · have bareOutside := outside_of_plain unjoined
        rw [code, scan_concat, step_of_outside bareOutside fun _ => by decide] at related
        exact related_opener related reread slash
      · rw [code]
        exact related_inside related reread inside character

theorem opener_of_drop (found : Comment.opener <:+: text) :
    Comment.opener <:+: text.dropWhile Text.isLayout := by
  induction text with
  | nil => exact found
  | cons character rest induction =>
      by_cases layout : Text.isLayout character = true
      · rw [List.dropWhile_cons_of_pos layout]
        rcases Text.pair_infix_cons.1 found with ⟨slash, _⟩ | later
        · exact absurd slash.symm (ne_of_layout layout (by decide))
        · exact induction later
      · rwa [List.dropWhile_cons_of_neg layout]

/-- Every rule loses its own comments, and what is left is a rule of the code. -/
theorem rules_of_code (css : Text) (unjoined : Unjoined css) (shown : Shown css) :
    (rules css).map Rule.bare = rules (Comment.filter css).clean := by
  have related := related_scan css unjoined shown
  have whole : (Comment.filter css).clean = (lex css).code := strip_of_unjoined unjoined
  have same : rules (lex css).code = (rules css).map fun rule => ⟨bareText rule.text⟩ := by
    rw [rules, split, Scan.finish, related.rules, ← List.map_reverse]
    rfl
  rw [whole, same]
  apply List.map_congr_left
  intro rule member
  have piece : bareText rule.text <:+: (lex css).code := by
    have listed : (⟨bareText rule.text⟩ : Rule) ∈ rules (lex css).code := by
      rw [same]
      exact List.mem_map_of_mem member
    exact rule_slice listed
  have own : Unjoined rule.text := fun found => unjoined ((opener_of_drop found).trans piece)
  rw [Rule.bare, strip_of_unjoined own, bareText]

end Splitter

namespace Selector

theorem classes_layout {character : Char} {text : Text}
    (layout : Text.isLayout character = true) (plain : ¬Comment.opener <:+: character :: text) :
    classes (character :: text) = classes text := by
  have plainRest : ¬Comment.opener <:+: text := fun found =>
    plain (Text.pair_infix_cons.2 (.inr found))
  have noBrace : character ≠ '{' := Splitter.ne_of_layout layout (by decide)
  have noDot : character ≠ '.' := Splitter.ne_of_layout layout (by decide)
  have blank := Text.is_blank_of_layout character layout
  rw [classes, classes, without_comments_of_plain plain, without_comments_of_plain plainRest,
    selector?, if_neg noBrace]
  cases selector? text with
  | none => rfl
  | some selector =>
      have alike : isAtRule (character :: selector) = isAtRule selector := by
        rw [isAtRule, List.dropWhile_cons_of_pos blank, isAtRule]
      dsimp only [Option.map_some]
      rw [alike, class_names_other noDot]

theorem classes_drop_layout {text : Text} (plain : ¬Comment.opener <:+: text) :
    classes (text.dropWhile Text.isLayout) = classes text := by
  induction text with
  | nil => rfl
  | cons character rest induction =>
      by_cases layout : Text.isLayout character = true
      · have plainRest : ¬Comment.opener <:+: rest := fun found =>
          plain (Text.pair_infix_cons.2 (.inr found))
        rw [List.dropWhile_cons_of_pos layout, induction plainRest, classes_layout layout plain]
      · rw [List.dropWhile_cons_of_neg layout]

/-- Comments and the layout in front of a rule have no part in its classes. -/
theorem classes_bare (rule : Rule) : rule.bare.classes = rule.classes := by
  have clean : ¬Comment.opener <:+: Comment.strip rule.text := Comment.clean_opener_free rule.text
  rw [Rule.classes, Rule.classes, ← classes_strip rule.text, Rule.bare, classes_drop_layout clean]

end Selector

namespace Splitter

/-- Splitting a commented stylesheet and then taking the comments out of its rules gives
the rules of the stylesheet without comments, with the same classes. -/
theorem rules_under_comments (css : Text) (unjoined : Unjoined css) (shown : Shown css) :
    (rules css).map Rule.bare = rules (Comment.filter css).clean ∧
      (rules css).map Rule.classes = (rules (Comment.filter css).clean).map Rule.classes := by
  have same := rules_of_code css unjoined shown
  refine ⟨same, ?_⟩
  rw [← same, List.map_map]
  apply List.map_congr_left
  intro rule _
  exact (Selector.classes_bare rule).symm

theorem rules_under_comments_of_every_kind :
    let css : Text := Text.ofString "/*x*/ .a\x7b/*\x7d*/\x7d@b/*;*/c;/y\x7b\x7d/**/"
    Unjoined css ∧ Shown css ∧
      (rules css).map Rule.bare = rules (Comment.filter css).clean ∧
        (rules css).map Rule.classes = (rules (Comment.filter css).clean).map Rule.classes ∧
          (rules css).map (fun rule => rule.bare.text) =
            [Text.ofString ".a\x7b\x7d", Text.ofString "@bc;", Text.ofString "/y\x7b\x7d"] := by
  intro css
  have unjoined : Unjoined css := by decide +kernel
  have shown : Shown css := by decide +kernel
  obtain ⟨same, classes⟩ := rules_under_comments css unjoined shown
  exact ⟨unjoined, shown, same, classes, by decide +kernel⟩

/-- A slash in front of a comment and a star behind it are an opener to the filter alone. -/
theorem rules_joined_opener :
    ¬∀ css : Text, (rules css).map Rule.bare = rules (Comment.filter css).clean ∧
      (rules css).map Rule.classes = (rules (Comment.filter css).clean).map Rule.classes := by
  intro claim
  have same := (claim (Text.ofString "//**/*\x7b\x7d")).1
  exact absurd same (by decide +kernel)

end Splitter

end StylePurge
