import StylePurge.Proofs.CommentScan
import StylePurge.Proofs.RuleScan
import StylePurge.Stylesheet

/-!
A stylesheet laid out as a sequence of parts: layout, comments and rules, in any
order and number. Reading such a text gives back its rules in order, and the
first comment as the banner. Each part carries what makes it one, so there is
nothing to assume about a sequence of parts.
-/

namespace StylePurge.Stylesheet

inductive Part where
  | layout (text : Text) (blank : ∀ character ∈ text, Text.isLayout character = true)
  | comment (inside : Text) (uncut : ¬Comment.closer <:+: inside)
  | rule (text : Text) (plain : ¬Comment.opener <:+: text) (whole : Splitter.Whole text)

namespace Part

def text : Part → Text
  | layout text _ => text
  | comment inside _ => Comment.opener ++ inside ++ Comment.closer
  | rule text _ _ => text

/-- What remains of a part when comments are taken away. -/
def kept : Part → Text
  | layout text _ => text
  | comment _ _ => []
  | rule text _ _ => text

def comment? : Part → Option Text
  | comment inside _ => some inside
  | layout _ _ => none
  | rule _ _ _ => none

def rule? : Part → Option Rule
  | rule text _ _ => some ⟨text⟩
  | layout _ _ => none
  | comment _ _ => none

end Part

/-- Text that holds no opener and does not end with a slash leaves the comment
scan ready for whatever follows. -/
theorem run_settled_text (kept banner text : Text) (closed : Bool)
    (notSlash : kept.head? ≠ some '/') (plain : ¬Comment.opener <:+: text)
    (last : text.getLast? ≠ some '/') :
    (⟨.plain, kept, banner, closed, false⟩ : Comment.Scan).run text =
        ⟨.plain, text.reverse ++ kept, banner, closed, false⟩ ∧
      (text.reverse ++ kept).head? ≠ some '/' := by
  have settled : (text.reverse ++ kept).head? ≠ some '/' := by
    rw [List.head?_append, List.head?_reverse]
    cases ending : text.getLast? with
    | none => exact notSlash
    | some character =>
        rw [ending] at last
        exact last
  refine ⟨?_, settled⟩
  have outside : (⟨.plain, kept, banner, closed, false⟩ : Comment.Scan).Outside :=
    (Comment.mode_after_eq_plain notSlash).symm
  rw [Comment.run_plain _ text outside plain fun slash => absurd slash notSlash]
  simp only [Comment.mode_after_eq_plain settled]

theorem layout_plain {text : Text}
    (blank : ∀ character ∈ text, Text.isLayout character = true) :
    ¬Comment.opener <:+: text ∧ text.getLast? ≠ some '/' := by
  have noSlash : '/' ∉ text := fun member => absurd (blank '/' member) (by decide)
  exact ⟨Text.pair_not_infix_of_not_mem noSlash, fun last => noSlash (List.mem_of_getLast? last)⟩

theorem whole_settled {text : Text} (whole : Splitter.Whole text) : text.getLast? ≠ some '/' := by
  intro slash
  rcases Splitter.last_of_whole whole with brace | semicolon
  · rw [brace] at slash
    exact absurd slash (by decide)
  · rw [semicolon] at slash
    exact absurd slash (by decide)

/-- The comment scan over parts. The first comment that is met while no comment
was closed before gives the banner. -/
theorem comment_run_parts (parts : List Part) (kept banner : Text) (closed : Bool)
    (notSlash : kept.head? ≠ some '/') :
    (⟨.plain, kept, banner, closed, false⟩ : Comment.Scan).run (parts.flatMap Part.text) =
      ⟨.plain, (parts.flatMap Part.kept).reverse ++ kept,
        if closed then banner else ((parts.findSome? Part.comment?).getD []).reverse ++ banner,
        closed || (parts.findSome? Part.comment?).isSome, false⟩ := by
  induction parts generalizing kept banner closed with
  | nil => cases closed <;> rfl
  | cons part rest induction =>
      rw [List.flatMap_cons, List.flatMap_cons, List.reverse_append, List.append_assoc,
        Comment.run_append, List.findSome?_cons]
      cases part with
      | layout text blank =>
          obtain ⟨plain, last⟩ := layout_plain blank
          obtain ⟨read, settled⟩ := run_settled_text kept banner text closed notSlash plain last
          rw [Part.text, read, induction _ banner closed settled]
          rfl
      | comment inside uncut =>
          have outside : (⟨.plain, kept, banner, closed, false⟩ : Comment.Scan).Outside :=
            (Comment.mode_after_eq_plain notSlash).symm
          have read := Comment.run_comment _ inside outside uncut
          simp only [Comment.mode_after_eq_plain notSlash] at read
          rw [Part.text, read, induction kept _ true notSlash]
          cases closed <;> rfl
      | rule text plain whole =>
          obtain ⟨read, settled⟩ :=
            run_settled_text kept banner text closed notSlash plain (whole_settled whole)
          rw [Part.text, read, induction _ banner closed settled]
          rfl

theorem filter_parts (parts : List Part) :
    Comment.filter (parts.flatMap Part.text) =
      ⟨parts.flatMap Part.kept, Text.trim ((parts.findSome? Part.comment?).getD [])⟩ := by
  have read := comment_run_parts parts [] [] false nofun
  rw [Comment.filter, Comment.scan_eq_run, Comment.Scan.start, read, Comment.Scan.finish]
  simp only [Bool.and_false, List.append_nil, List.reverse_reverse, Bool.false_eq_true, if_false]

theorem rule_run_part (part : Part) (earlier : List Rule) :
    (Splitter.Scan.idle earlier).run part.kept = .idle (part.rule?.toList ++ earlier) := by
  cases part with
  | layout text blank => exact Splitter.run_layout earlier text blank
  | comment inside uncut => rfl
  | rule text plain whole => exact Splitter.run_whole earlier whole

theorem rules_parts (parts : List Part) :
    Splitter.rules (parts.flatMap Part.kept) = parts.filterMap Part.rule? := by
  have read := Splitter.run_sequence Part.kept Part.rule? parts
    (fun part _ => rule_run_part part) []
  rw [List.append_nil] at read
  rw [Splitter.rules_of_idle read, List.reverse_reverse]

/-- Reading recovers the rules of every layout in order, and the first comment
as the banner. -/
theorem parse_parts (parts : List Part) :
    parse (parts.flatMap Part.text) =
      ⟨parts.filterMap Part.rule?, Text.trim ((parts.findSome? Part.comment?).getD [])⟩ := by
  rw [parse, filter_parts, rules_parts]

example :
    parse ['/', '*', '/', '*', '/', '*', '{', '}', '/', '*', '*', '/', '\n', '@', 'a', ';'] =
      ⟨[⟨['*', '{', '}']⟩, ⟨['@', 'a', ';']⟩], ['/']⟩ := by rfl

end StylePurge.Stylesheet
