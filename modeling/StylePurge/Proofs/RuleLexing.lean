import Mathlib.Data.List.Induction
import StylePurge.Proofs.RuleScan

/-!
Braces outside comments. Lexing skips comments and takes each delimiter as two
characters at once, while the rule scan remembers a slash or a star until the
next character. Wherever a text ends, both have seen the same code, and the scan
counts exactly the braces of that code.
-/

namespace StylePurge.Splitter

/-- What stands outside comments, and whether the text ends inside one. -/
structure Lexed where
  code : Text
  isOpen : Bool
  deriving DecidableEq, Repr

def Lexed.prepend (front : Text) (lexed : Lexed) : Lexed := ⟨front ++ lexed.code, lexed.isOpen⟩

/-- The flag says whether the text begins inside a comment. -/
def lexFrom : Bool → Text → Lexed
  | isOpen, [] => ⟨[], isOpen⟩
  | false, '/' :: '*' :: rest => lexFrom true rest
  | false, character :: rest => (lexFrom false rest).prepend [character]
  | true, '*' :: '/' :: rest => lexFrom false rest
  | true, _ :: rest => lexFrom true rest

def lex (text : Text) : Lexed := lexFrom false text

def nest (depth : Nat) (character : Char) : Nat :=
  if character = '{' then depth + 1 else if character = '}' then depth - 1 else depth

/-- The depth of braces behind a piece of code. A closing brace that closes nothing
does not count. -/
def nesting (code : Text) : Nat := code.foldl nest 0

@[simp] theorem prepend_nil (lexed : Lexed) : lexed.prepend [] = lexed := rfl

@[simp] theorem prepend_prepend (outer inner : Text) (lexed : Lexed) :
    (lexed.prepend inner).prepend outer = lexed.prepend (outer ++ inner) := by
  simp [Lexed.prepend]

theorem lex_opener (rest : Text) : lexFrom false ('/' :: '*' :: rest) = lexFrom true rest := rfl

theorem lex_closer (rest : Text) : lexFrom true ('*' :: '/' :: rest) = lexFrom false rest := rfl

section Lex

variable {character : Char} {rest : Text}

theorem lex_code (apart : character = '/' → rest.head? ≠ some '*') :
    lexFrom false (character :: rest) = (lexFrom false rest).prepend [character] := by
  rw [lexFrom]
  rintro later rfl rfl
  exact apart rfl rfl

theorem lex_inside (apart : character = '*' → rest.head? ≠ some '/') :
    lexFrom true (character :: rest) = lexFrom true rest := by
  rw [lexFrom]
  rintro later rfl rfl
  exact apart rfl rfl

end Lex

@[simp] theorem nest_opening (depth : Nat) : nest depth '{' = depth + 1 := rfl

@[simp] theorem nest_closing (depth : Nat) : nest depth '}' = depth - 1 := rfl

theorem nest_other {character : Char} (opening : character ≠ '{') (closing : character ≠ '}')
    (depth : Nat) : nest depth character = depth := by
  rw [nest, if_neg opening, if_neg closing]

theorem nesting_concat (code : Text) (character : Char) :
    nesting (code ++ [character]) = nest (nesting code) character := by
  simp [nesting]

theorem nesting_flat {code : Text} (opening : '{' ∉ code) (closing : '}' ∉ code) :
    nesting code = 0 := by
  induction code using List.reverseRecOn with
  | nil => rfl
  | append_singleton code character induction =>
      simp only [List.mem_append, List.mem_singleton, not_or] at opening closing
      rw [nesting_concat, nest_other (Ne.symm opening.2) (Ne.symm closing.2),
        induction opening.1 closing.1]

/-- Lexing what lies ahead of a scan. A slash or a star that may be half of a
delimiter still lies ahead. -/
def Scan.lexAhead (scan : Scan) (rest : Text) : Lexed :=
  match scan.mode with
  | .plain => lexFrom false rest
  | .slash => lexFrom false ('/' :: rest)
  | .inside => lexFrom true rest
  | .star => lexFrom true ('*' :: rest)

theorem plain_step_mode (scan : Scan) (character : Char) :
    (scan.plainStep character).mode = if character = '/' then .slash else .plain := by
  unfold Scan.plainStep
  by_cases slash : character = '/'
  · simp only [if_pos slash]
  · simp only [if_neg slash]
    split
    · rfl
    · split
      · split <;> rfl
      · split <;> rfl

theorem plain_step_depth (scan : Scan) (character : Char) :
    (scan.plainStep character).depth = nest scan.depth character := by
  unfold Scan.plainStep nest
  by_cases slash : character = '/'
  · simp [slash]
  · simp only [if_neg slash]
    split
    · rfl
    · split
      · split <;> simp_all [Scan.emit]
      · split <;> simp_all [Scan.emit]

theorem plain_step_lex (scan : Scan) (character : Char) :
    ∃ code, (scan.plainStep character).depth = code.foldl nest scan.depth ∧
      ∀ rest, lexFrom false (character :: rest) =
        ((scan.plainStep character).lexAhead rest).prepend code := by
  have mode := plain_step_mode scan character
  have depth := plain_step_depth scan character
  by_cases slash : character = '/'
  · subst slash
    refine ⟨[], depth, fun rest => ?_⟩
    rw [if_pos rfl] at mode
    simp only [Scan.lexAhead, mode, prepend_nil]
  · refine ⟨[character], depth, fun rest => ?_⟩
    rw [if_neg slash] at mode
    simp only [Scan.lexAhead, mode]
    exact lex_code fun same => absurd same slash

/-- What a step settles as code is gone from what lies ahead, and its braces are counted. -/
theorem step_lex (scan : Scan) (character : Char) :
    ∃ code, (scan.step character).depth = code.foldl nest scan.depth ∧
      ∀ rest, scan.lexAhead (character :: rest) =
        ((scan.step character).lexAhead rest).prepend code := by
  unfold Scan.step
  cases mode : scan.mode with
  | plain =>
      obtain ⟨code, depth, ahead⟩ := plain_step_lex scan character
      refine ⟨code, depth, fun rest => ?_⟩
      simp only [Scan.lexAhead, mode]
      exact ahead rest
  | slash =>
      by_cases star : character = '*'
      · refine ⟨[], ?_, fun rest => ?_⟩
        · simp [star]
        · simp [Scan.lexAhead, mode, star, lex_opener]
      · obtain ⟨code, depth, ahead⟩ := plain_step_lex scan character
        refine ⟨'/' :: code, ?_, fun rest => ?_⟩
        · simp only [if_neg star, List.foldl_cons, depth]
          rfl
        · have slash : lexFrom false ('/' :: character :: rest) =
              (lexFrom false (character :: rest)).prepend ['/'] :=
            lex_code fun _ => by simpa using star
          simp only [if_neg star, Scan.lexAhead, mode]
          rw [slash, ahead, prepend_prepend]
          rfl
  | inside =>
      refine ⟨[], rfl, fun rest => ?_⟩
      by_cases star : character = '*'
      · simp [Scan.lexAhead, mode, star]
      · simp only [Scan.lexAhead, mode, if_neg star, prepend_nil]
        exact lex_inside fun same => absurd same star
  | star =>
      refine ⟨[], rfl, fun rest => ?_⟩
      by_cases slash : character = '/'
      · simp [Scan.lexAhead, mode, slash, lex_closer]
      · have starRead : lexFrom true ('*' :: character :: rest) =
            lexFrom true (character :: rest) :=
          lex_inside fun _ => by simpa using slash
        by_cases star : character = '*'
        · simp only [Scan.lexAhead, mode, if_neg slash, if_pos star, prepend_nil]
          rw [starRead, star]
        · simp only [Scan.lexAhead, mode, if_neg slash, if_neg star, prepend_nil]
          rw [starRead]
          exact lex_inside fun same => absurd same star

theorem run_lex (scan : Scan) (text : Text) :
    ∃ code, (scan.run text).depth = code.foldl nest scan.depth ∧
      ∀ rest, scan.lexAhead (text ++ rest) = ((scan.run text).lexAhead rest).prepend code := by
  induction text generalizing scan with
  | nil => exact ⟨[], rfl, fun rest => rfl⟩
  | cons character text induction =>
      obtain ⟨here, depthHere, aheadHere⟩ := step_lex scan character
      obtain ⟨later, depth, ahead⟩ := induction (scan.step character)
      refine ⟨here ++ later, ?_, fun rest => ?_⟩
      · rw [run_cons, depth, depthHere, List.foldl_append]
      · rw [List.cons_append, aheadHere, ahead, prepend_prepend, run_cons]

/-- The code in front of a position, and what the scan there leaves to be lexed. -/
theorem lex_append (css : Text) :
    ∃ code, (scan css).depth = nesting code ∧
      lex css = ((scan css).lexAhead []).prepend code ∧
      ∀ rest, lex (css ++ rest) = ((scan css).lexAhead rest).prepend code := by
  obtain ⟨code, depth, ahead⟩ := run_lex Scan.start css
  have here := ahead []
  rw [List.append_nil] at here
  exact ⟨code, depth, here, ahead⟩

section Position

variable {css : Text}

theorem lex_is_open_iff (css : Text) :
    (lex css).isOpen = false ↔ (scan css).Outside := by
  obtain ⟨code, _, here, _⟩ := lex_append css
  rw [here]
  unfold Scan.Outside
  cases mode : (scan css).mode <;> simp [Scan.lexAhead, mode, lexFrom, Lexed.prepend]

theorem nesting_lex (css : Text) : nesting (lex css).code = (scan css).depth := by
  obtain ⟨code, depth, here, _⟩ := lex_append css
  rw [here, depth]
  cases mode : (scan css).mode with
  | slash =>
      simp only [Scan.lexAhead, mode, Lexed.prepend, lexFrom, nesting_concat, List.append_nil]
      rfl
  | plain => simp [Scan.lexAhead, mode, Lexed.prepend, lexFrom]
  | inside => simp [Scan.lexAhead, mode, Lexed.prepend, lexFrom]
  | star => simp [Scan.lexAhead, mode, Lexed.prepend, lexFrom]

/-- A character outside comments that belongs to no delimiter is code. -/
theorem lex_append_code {character : Char} {rest : Text}
    (outside : (scan css).Outside)
    (goesOn : (scan css).mode = .slash → character ≠ '*')
    (apart : character = '/' → rest.head? ≠ some '*') :
    lex (css ++ character :: rest) =
      (lexFrom false rest).prepend ((lex css).code ++ [character]) := by
  obtain ⟨code, _, here, ahead⟩ := lex_append css
  rw [here, ahead]
  rcases outside with plain | slash
  · simp [Scan.lexAhead, plain, lexFrom, Lexed.prepend, lex_code apart]
  · have notStar := goesOn slash
    have slashRead : lexFrom false ('/' :: character :: rest) =
        (lexFrom false (character :: rest)).prepend ['/'] :=
      lex_code fun _ => by simpa using notStar
    simp [Scan.lexAhead, slash, lexFrom, Lexed.prepend, slashRead, lex_code apart]

theorem lex_concat_code {character : Char}
    (outside : (scan css).Outside)
    (goesOn : (scan css).mode = .slash → character ≠ '*') :
    lex (css ++ [character]) = ⟨(lex css).code ++ [character], false⟩ := by
  rw [lex_append_code outside goesOn (by simp)]
  simp [lexFrom, Lexed.prepend]

/-- Inside a comment no character is code. -/
theorem lex_concat_inside (character : Char)
    (inside : ¬(scan css).Outside) :
    (lex (css ++ [character])).code = (lex css).code := by
  obtain ⟨code, _, here, ahead⟩ := lex_append css
  rw [here, ahead]
  cases mode : (scan css).mode with
  | plain => exact absurd (.inl mode) inside
  | slash => exact absurd (.inr mode) inside
  | inside => simp [Scan.lexAhead, mode, lexFrom, Lexed.prepend]
  | star =>
      by_cases slash : character = '/'
      · simp [Scan.lexAhead, mode, lexFrom, Lexed.prepend, slash]
      · have starRead : lexFrom true ['*', character] = lexFrom true [character] :=
          lex_inside fun _ => by simpa using slash
        simp [Scan.lexAhead, mode, lexFrom, Lexed.prepend, starRead]

/-- A star that completes an opener takes the slash out of the code. -/
theorem lex_concat_opener (slash : (scan css).mode = .slash) :
    (lex css).code = (lex (css ++ ['*'])).code ++ ['/'] := by
  obtain ⟨code, _, here, ahead⟩ := lex_append css
  rw [here, ahead]
  simp [Scan.lexAhead, slash, lexFrom, Lexed.prepend]

end Position

end StylePurge.Splitter
