import StylePurge.Proofs.CommentScan
import StylePurge.Proofs.RuleLexing

/-!
Two ways to leave comments out. Lexing takes each comment out once and looks at nothing
twice; the filter goes on with the slash in front of a comment, which can open another one
together with a star behind it. Where no slash and star come together like that, both leave
the same code.
-/

namespace StylePurge.Splitter

variable {css text : Text} {character : Char}

/-- Taking the comments out brings no slash and star together. -/
def Unjoined (css : Text) : Prop := ¬Comment.opener <:+: (lex css).code

instance (css : Text) : Decidable (Unjoined css) :=
  inferInstanceAs (Decidable (¬Comment.opener <:+: (lex css).code))

/-- A character is code, or it completes an opener and takes the slash back, or it stands
inside a comment. -/
theorem lex_concat_cases (css : Text) (character : Char) :
    ((scan css).Outside ∧ ((scan css).mode = .slash → character ≠ '*') ∧
        (lex (css ++ [character])).code = (lex css).code ++ [character]) ∨
      ((scan css).mode = .slash ∧ character = '*' ∧
        (lex css).code = (lex (css ++ [character])).code ++ ['/']) ∨
      (¬(scan css).Outside ∧ (lex (css ++ [character])).code = (lex css).code) := by
  by_cases outside : (scan css).Outside
  · by_cases opens : (scan css).mode = .slash ∧ character = '*'
    · obtain ⟨slash, rfl⟩ := opens
      exact .inr (.inl ⟨slash, rfl, lex_concat_opener slash⟩)
    · have goesOn : (scan css).mode = .slash → character ≠ '*' := fun slash star =>
        opens ⟨slash, star⟩
      exact .inl ⟨outside, goesOn, by rw [lex_concat_code outside goesOn]⟩
  · exact .inr (.inr ⟨outside, lex_concat_inside character outside⟩)

theorem unjoined_of_concat (unjoined : Unjoined (css ++ [character])) : Unjoined css := by
  unfold Unjoined at unjoined ⊢
  rcases lex_concat_cases css character with ⟨_, _, code⟩ | ⟨_, _, code⟩ | ⟨_, code⟩
  · rw [code] at unjoined
    exact fun found => unjoined (List.infix_append_of_infix_left found)
  · have apart : '*' ≠ '/' := by decide
    rw [code, Comment.opener, Text.pair_infix_concat, not_or]
    exact ⟨unjoined, fun joined => apart joined.2⟩
  · rwa [code] at unjoined

/-- Code that ends in a slash goes on with no star. -/
theorem not_star_of_unjoined (unjoined : Unjoined (css ++ [character]))
    (code : (lex (css ++ [character])).code = (lex css).code ++ [character])
    (last : (lex css).code.getLast? = some '/') : character ≠ '*' := by
  rintro rfl
  apply unjoined
  rw [code, Comment.opener, Text.pair_infix_concat]
  exact .inr ⟨last, rfl⟩

theorem step_of_opener {scan : Scan} (slash : scan.mode = .slash) :
    scan.step '*' = { scan with mode := .inside, pending := '*' :: scan.pending } := by
  simp [Scan.step, slash]

theorem step_of_outside {scan : Scan} (outside : scan.Outside)
    (goesOn : scan.mode = .slash → character ≠ '*') :
    scan.step character = scan.plainStep character := by
  rcases outside with plain | slash
  · simp only [Scan.step, plain]
  · simp only [Scan.step, slash, if_neg (goesOn slash)]

theorem outside_plain_step (scan : Scan) (character : Char) :
    (scan.plainStep character).Outside := by
  rw [Scan.Outside, plain_step_mode]
  by_cases slash : character = '/'
  · exact .inr (if_pos slash)
  · exact .inl (if_neg slash)

/-- Text without an opener never leads the scan into a comment. -/
theorem mode_of_plain (plain : ¬Comment.opener <:+: text) :
    (scan text).mode = if text.getLast? = some '/' then .slash else .plain := by
  induction text using List.reverseRecOn with
  | nil => rfl
  | append_singleton text character induction =>
      rw [Comment.opener, Text.pair_infix_concat, not_or] at plain
      have here := induction plain.1
      have outside : (scan text).Outside := by
        rw [Scan.Outside, here]
        split
        · exact .inr rfl
        · exact .inl rfl
      have goesOn : (scan text).mode = .slash → character ≠ '*' := by
        intro slash star
        rw [here, ite_eq_left_iff] at slash
        by_cases last : text.getLast? = some '/'
        · exact plain.2 ⟨last, star.symm⟩
        · exact absurd (slash last) (by decide)
      rw [scan_concat, step_of_outside outside goesOn, plain_step_mode, List.getLast?_concat]
      simp only [Option.some.injEq]

theorem outside_of_plain (plain : ¬Comment.opener <:+: text) : (scan text).Outside := by
  rw [Scan.Outside, mode_of_plain plain]
  split
  · exact .inr rfl
  · exact .inl rfl

/-- The filter stands where the rule scan stands, except that behind a comment it may still
remember a slash. -/
structure Follows (scan : Scan) (filter : Comment.Scan) : Prop where
  outside : scan.Outside → filter.Outside
  slash : scan.mode = .slash → filter.kept.head? = some '/'
  inside : ¬scan.Outside → filter.mode = scan.mode

/-- Where the scan stands behind a character of a comment. -/
def modeInside (mode : Comment.Mode) (character : Char) : Comment.Mode :=
  if mode = .star ∧ character = '/' then .plain
  else if character = '*' then .star
  else .inside

theorem step_of_inside {scan : Scan} (inside : ¬scan.Outside) (character : Char) :
    scan.step character =
      { scan with
        mode := modeInside scan.mode character
        pending := character :: scan.pending } := by
  cases mode : scan.mode with
  | plain => exact absurd (.inl mode) inside
  | slash => exact absurd (.inr mode) inside
  | inside => simp [Scan.step, modeInside, mode]
  | star => simp [Scan.step, modeInside, mode]

theorem filter_step_inside {filter : Comment.Scan} (isOpen : filter.isOpen = true)
    (character : Char) :
    (filter.step character).kept = filter.kept ∧
      (filter.step character).mode =
        match modeInside filter.mode character with
        | .plain => Comment.modeAfterComment filter.kept
        | mode => mode := by
  by_cases closes : filter.mode = .star ∧ character = '/'
  · obtain ⟨star, rfl⟩ := closes
    simp [Comment.Scan.step, star, modeInside]
  · have goesOn : filter.mode = .star → character ≠ '/' := fun star slash => closes ⟨star, slash⟩
    rw [Comment.step_open filter character isOpen goesOn, modeInside, if_neg closes]
    by_cases star : character = '*'
    · simp [star]
    · simp [star]

theorem follows_inside {scan : Scan} {filter : Comment.Scan} (follows : Follows scan filter)
    (inside : ¬scan.Outside) (character : Char) :
    Follows (scan.step character) (filter.step character) ∧
      (filter.step character).kept = filter.kept := by
  have same := follows.inside inside
  have isOpen : filter.isOpen = true := by
    rw [Comment.is_open_iff, same]
    cases mode : scan.mode with
    | plain => exact absurd (.inl mode) inside
    | slash => exact absurd (.inr mode) inside
    | inside => exact .inl rfl
    | star => exact .inr rfl
  obtain ⟨kept, mode⟩ := filter_step_inside isOpen character
  rw [same] at mode
  refine ⟨?_, kept⟩
  rw [step_of_inside inside]
  by_cases closes : scan.mode = .star ∧ character = '/'
  · simp only [modeInside, if_pos closes] at mode ⊢
    refine ⟨fun _ => ?_, nofun, fun unclosed => absurd (.inl rfl) unclosed⟩
    rw [Comment.Scan.Outside, mode, kept]
  · by_cases star : character = '*'
    · simp only [modeInside, if_neg closes, if_pos star] at mode ⊢
      exact ⟨by simp [Scan.Outside], nofun, fun _ => mode⟩
    · simp only [modeInside, if_neg closes, if_neg star] at mode ⊢
      exact ⟨by simp [Scan.Outside], nofun, fun _ => mode⟩

theorem follows_plain {scan : Scan} {filter : Comment.Scan} (follows : Follows scan filter)
    (outside : scan.Outside) (goesOn : scan.mode = .slash → character ≠ '*')
    (apart : filter.kept.head? = some '/' → character ≠ '*') :
    Follows (scan.step character) (filter.step character) ∧
      (filter.step character).kept = character :: filter.kept := by
  rw [Comment.step_outside filter character (follows.outside outside) apart,
    step_of_outside outside goesOn]
  refine ⟨⟨fun _ => rfl, fun slash => ?_, fun inside => ?_⟩, rfl⟩
  · rw [plain_step_mode] at slash
    split at slash
    · rename_i here
      rw [here]
      rfl
    · exact nomatch slash
  · exact absurd (outside_plain_step scan character) inside

/-- Where an opener is complete, the filter takes back the slash that it has kept. -/
theorem follows_opener {scan : Scan} {filter : Comment.Scan} (follows : Follows scan filter)
    (slash : scan.mode = .slash) :
    Follows (scan.step '*') (filter.step '*') ∧
      filter.kept = '/' :: (filter.step '*').kept := by
  obtain ⟨behind, kept⟩ := List.head?_eq_some_iff.1 (follows.slash slash)
  have mode : filter.mode = .slash := by
    have outside : filter.mode = Comment.modeAfterComment filter.kept :=
      follows.outside (.inr slash)
    rw [outside, Comment.mode_after_eq_slash_iff, follows.slash slash]
  have opened : filter.step '*' =
      { filter with mode := .inside, kept := behind, capturing := !filter.closedOnce } := by
    simp [Comment.Scan.step, mode, kept]
  rw [step_of_opener slash, opened]
  exact ⟨⟨by simp [Scan.Outside], by simp, fun _ => rfl⟩, kept⟩

/-- Up to every position the filter has kept the code that lexing has found. -/
theorem kept_is_code (css : Text) (unjoined : Unjoined css) :
    Follows (scan css) (Comment.scan css) ∧ (Comment.scan css).kept.reverse = (lex css).code := by
  induction css using List.reverseRecOn with
  | nil => exact ⟨⟨fun _ => rfl, nofun, fun inside => absurd (.inl rfl) inside⟩, rfl⟩
  | append_singleton css character induction =>
      obtain ⟨follows, kept⟩ := induction (unjoined_of_concat unjoined)
      have next : Comment.scan (css ++ [character]) = (Comment.scan css).step character :=
        Comment.run_append Comment.Scan.start css [character]
      rw [scan_concat, next]
      rcases lex_concat_cases css character with
        ⟨outside, goesOn, code⟩ | ⟨slash, rfl, code⟩ | ⟨inside, code⟩
      · -- The filter may remember a slash from in front of a comment; then no star follows.
        have apart : (Comment.scan css).kept.head? = some '/' → character ≠ '*' := by
          intro head
          apply not_star_of_unjoined unjoined code
          rw [← kept, List.getLast?_reverse, head]
        obtain ⟨still, longer⟩ := follows_plain follows outside goesOn apart
        exact ⟨still, by rw [longer, List.reverse_cons, kept, code]⟩
      · obtain ⟨still, shorter⟩ := follows_opener follows slash
        rw [shorter, List.reverse_cons, code] at kept
        exact ⟨still, List.append_cancel_right kept⟩
      · obtain ⟨still, same⟩ := follows_inside follows inside character
        exact ⟨still, by rw [same, kept, code]⟩

theorem strip_of_unjoined (unjoined : Unjoined css) : Comment.strip css = (lex css).code :=
  (kept_is_code css unjoined).2

end StylePurge.Splitter
