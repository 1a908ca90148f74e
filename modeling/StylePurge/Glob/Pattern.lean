import StylePurge.Text.Decimal

/-!
Wildcard patterns. A question mark stands for one character, a star for any run
of characters, brackets for one character of a class, and a double star that
forms a whole path component for any number of components. Matching is against
a whole text, in which wildcards may also stand for slashes.
-/

namespace StylePurge.Glob

structure ClassRange where
  low : Char
  high : Char
  deriving DecidableEq, Repr

inductive Token where
  | char (character : Char)
  | anyChar
  | anySequence
  | anyDirectories
  | within (ranges : List ClassRange)
  | outside (ranges : List ClassRange)
  deriving DecidableEq, Repr

inductive PatternProblem where
  | tooManyStars
  | partialComponent
  | invalidClass
  deriving DecidableEq, Repr

structure PatternFault where
  position : Nat
  problem : PatternProblem
  deriving DecidableEq, Repr

def PatternFault.message (fault : PatternFault) : String :=
  let problem := match fault.problem with
    | .tooManyStars => "wildcards are either regular `*` or recursive `**`"
    | .partialComponent => "recursive wildcards must form a single path component"
    | .invalidClass => "invalid range pattern"
  s!"Pattern syntax error near position {fault.position}: {problem}"

structure Pattern where
  tokens : List Token
  deriving DecidableEq, Repr

/-- Three characters with a hyphen in the middle are a range, any other
character stands for itself. -/
def classRanges : Text → List ClassRange
  | low :: '-' :: high :: rest => ⟨low, high⟩ :: classRanges rest
  | character :: rest => ⟨character, character⟩ :: classRanges rest
  | [] => []

/-- The characters of a class up to its closing bracket, and the text behind it.
The first character belongs to the class even if it is a bracket. -/
def classBody? : Text → Option (Text × Text)
  | [] => none
  | first :: rest =>
      match rest.dropWhile (· != ']') with
      | _ :: behind => some (first :: rest.takeWhile (· != ']'), behind)
      | [] => none

theorem class_body_length {text body behind : Text}
    (found : classBody? text = some (body, behind)) : behind.length < text.length := by
  unfold classBody? at found
  split at found
  · simp at found
  · rename_i first rest
    have suffix := (List.dropWhile_suffix (fun character => character != ']') (l := rest)).length_le
    split at found
    · rename_i bracket tail equation
      simp only [Option.some.injEq, Prod.mk.injEq] at found
      rw [equation, List.length_cons] at suffix
      rw [← found.2, List.length_cons]
      omega
    · simp at found

def class? (text : Text) : Option (Token × Text) :=
  match text with
  | '!' :: rest => (classBody? rest).map fun (body, behind) => (.outside (classRanges body), behind)
  | _ => (classBody? text).map fun (body, behind) => (.within (classRanges body), behind)

theorem class_length {text behind : Text} {token : Token}
    (found : class? text = some (token, behind)) : behind.length < text.length := by
  unfold class? at found
  split at found
  · rename_i rest
    obtain ⟨pair, inner, same⟩ := Option.map_eq_some_iff.1 found
    have shorter := @class_body_length rest pair.1 pair.2 inner
    simp only [Prod.mk.injEq] at same
    rw [← same.2, List.length_cons]
    omega
  · obtain ⟨pair, inner, same⟩ := Option.map_eq_some_iff.1 found
    have shorter := @class_body_length text pair.1 pair.2 inner
    simp only [Prod.mk.injEq] at same
    rw [← same.2]
    exact shorter

/-- Compiles from a position on. `fresh` says that a path component starts there. -/
def compileFrom (position : Nat) (fresh : Bool) (text : Text) : Except PatternFault (List Token) :=
  match text with
  | [] => .ok []
  | '*' :: '*' :: '*' :: _ => .error ⟨position + 2, .tooManyStars⟩
  | '*' :: '*' :: rest =>
      if !fresh then .error ⟨position - 1, .partialComponent⟩
      else
        match rest with
        | [] => .ok [.anyDirectories]
        | '/' :: rest => (compileFrom (position + 3) true rest).map (.anyDirectories :: ·)
        | _ :: _ => .error ⟨position + 2, .partialComponent⟩
  | '*' :: rest => (compileFrom (position + 1) false rest).map (.anySequence :: ·)
  | '?' :: rest => (compileFrom (position + 1) false rest).map (.anyChar :: ·)
  | '[' :: rest =>
      match found : class? rest with
      | some (token, behind) =>
          have : behind.length < rest.length := class_length found
          (compileFrom (position + 1 + (rest.length - behind.length)) false behind).map (token :: ·)
      | none => .error ⟨position, .invalidClass⟩
  | character :: rest =>
      (compileFrom (position + 1) (character == '/') rest).map (.char character :: ·)
termination_by text.length

def compile (text : Text) : Except PatternFault Pattern := (compileFrom 0 true text).map Pattern.mk

def ClassRange.holds (range : ClassRange) (character : Char) : Bool :=
  range.low ≤ character && character ≤ range.high

def Token.admits (token : Token) (character : Char) : Bool :=
  match token with
  | .char expected => character == expected
  | .anyChar => true
  | .within ranges => ranges.any (·.holds character)
  | .outside ranges => !ranges.any (·.holds character)
  | .anySequence | .anyDirectories => false

def suffixes : Text → List Text
  | [] => [[]]
  | character :: rest => (character :: rest) :: suffixes rest

def behindSlashes : Text → List Text
  | [] => []
  | character :: rest =>
      if character = '/' then rest :: behindSlashes rest else behindSlashes rest

/-- What may be left after any number of leading components, or after all. -/
def componentEnds (text : Text) : List Text := text :: behindSlashes text ++ [[]]

def matchesTokens : List Token → Text → Bool
  | [], text => text.isEmpty
  | .anySequence :: tokens, text => (suffixes text).any (matchesTokens tokens)
  | .anyDirectories :: tokens, text => (componentEnds text).any (matchesTokens tokens)
  | _ :: _, [] => false
  | token :: tokens, character :: rest => token.admits character && matchesTokens tokens rest

def Pattern.matches (pattern : Pattern) (text : Text) : Bool := matchesTokens pattern.tokens text

def Pattern.literal? (pattern : Pattern) : Option Text :=
  pattern.tokens.mapM fun token =>
    match token with
    | .char character => some character
    | _ => none

def Pattern.isRecursive (pattern : Pattern) : Bool := pattern.tokens.contains .anyDirectories

def Pattern.startsWithDot (pattern : Pattern) : Bool := pattern.tokens.head? == some (.char '.')

end StylePurge.Glob
