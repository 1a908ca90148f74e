import StylePurge.Comment
import StylePurge.OrderedSet
import StylePurge.Text.Word

/-!
Class names in the selector of a rule. The selector is the text before the
first opening brace, without comments. A name follows a dot, or a dot and one
backslash. Text without a block and at-rules have no class names.
-/

namespace StylePurge.Selector

/-- What a dot introduces: one backslash is passed over, then a run of name characters. -/
def afterEscape : Text → Text
  | '\\' :: rest => rest
  | text => text

theorem after_escape_length (text : Text) : (afterEscape text).length ≤ text.length := by
  unfold afterEscape
  split <;> simp

/-- Scans from left to right and goes on behind each name it finds. -/
def classNames (selector : Text) : List Text :=
  match selector with
  | [] => []
  | '.' :: rest =>
      let name := (afterEscape rest).takeWhile Text.isNameCharacter
      if name.isEmpty then classNames rest
      else name :: classNames ((afterEscape rest).dropWhile Text.isNameCharacter)
  | _ :: rest => classNames rest
termination_by selector.length
decreasing_by
  · simp
  · have shorter := after_escape_length rest
    have suffix := (List.dropWhile_suffix Text.isNameCharacter
      (l := afterEscape rest)).length_le
    simp only [List.length_cons]
    omega
  · simp

def selector? : Text → Option Text
  | [] => none
  | character :: rest =>
      if character = '{' then some []
      else (selector? rest).map (character :: ·)

def isAtRule (selector : Text) : Bool :=
  (selector.dropWhile Text.isBlank).head? == some '@'

/-- Text without a comment opener is used as it is. -/
def withoutComments (text : Text) : Text :=
  if Text.containsText ['/', '*'] text then Comment.strip text else text

def classes (ruleText : Text) : OrderedSet Text :=
  match selector? (withoutComments ruleText) with
  | none => .empty
  | some selector =>
      if isAtRule selector then .empty else .ofList (classNames selector)

end StylePurge.Selector
