import StylePurge.Text.Decimal
import StylePurge.Yaml.Cursor

/-!
Scalars of a YAML stream and the text they denote. Line endings inside plain and
quoted scalars are folded: one becomes a space, of several all but the first
remain. Block scalars keep their lines or fold them, and their indicators say
what happens to the endings at their tail.
-/

namespace StylePurge.Yaml

inductive Style where
  | plain
  | quoted
  | literal
  | folded
  deriving DecidableEq, Repr

/-- The space between two parts of a scalar. `broken` says that it holds a line
ending, or takes the place of one that was escaped. -/
structure Gap where
  spaces : Text
  first : Text
  later : Text
  broken : Bool
  deriving DecidableEq, Repr

namespace Gap

def empty : Gap := ⟨[], [], [], false⟩

def fold (first later : Text) : Text :=
  if first.head? = some '\n' then (if later.isEmpty then [' '] else later)
  else first ++ later

/-- What the gap contributes when more text follows. -/
def text (gap : Gap) : Text := if gap.broken then fold gap.first gap.later else gap.spaces

/-- Passes over spaces and line endings. A tab left of `margin` at the start of
a line is refused. -/
def scan (margin : Nat) : Nat → Gap → Cursor → Option (Gap × Cursor)
  | 0, _, _ => none
  | fuel + 1, gap, cursor =>
      match cursor.rest with
      | [] => some (gap, cursor)
      | character :: _ =>
          if isSpace character then
            if gap.broken then
              if character = '\t' && cursor.column < margin then none
              else scan margin fuel gap (cursor.skip 1)
            else scan margin fuel { gap with spaces := gap.spaces ++ [character] } (cursor.skip 1)
          else if isBreak character then
            let next :=
              if gap.broken then { gap with later := gap.later ++ cursor.breakText }
              else ⟨[], cursor.breakText, [], true⟩
            scan margin fuel next cursor.skipBreak
          else some (gap, cursor)

end Gap

structure Scanned where
  text : Text
  cursor : Cursor
  /-- Whether a line ending was passed over behind the last part. -/
  broken : Bool
  deriving DecidableEq, Repr

def isFlowIndicator (character : Char) : Bool :=
  character == ',' || character == '[' || character == ']' || character == '\x7b' ||
    character == '\x7d'

def refusesColon : Text → Bool
  | [] => false
  | character :: _ => isFlowIndicator character || character == '?'

def plainPart? (inFlow : Bool) : Text → Option Text
  | [] => some []
  | character :: rest =>
      if isGap character then some []
      else if inFlow && character == ':' && refusesColon rest then none
      else if character == ':' && endsWord rest then some []
      else if inFlow && isFlowIndicator character then some []
      else (plainPart? inFlow rest).map (character :: ·)

/-- Plain scalars go on over line endings while the lines are indented. -/
def scanPlainFrom (inFlow : Bool) (margin : Nat) :
    Nat → Text → Gap → Cursor → Option Scanned
  | 0, _, _, _ => none
  | fuel + 1, text, gap, cursor =>
      if cursor.isAtMarker || cursor.rest.head? == some '#' then some ⟨text, cursor, gap.broken⟩
      else
        match plainPart? inFlow cursor.rest with
        | none => none
        | some [] => some ⟨text, cursor, gap.broken⟩
        | some part =>
            let extended := text ++ gap.text ++ part
            let behind := cursor.skip part.length
            if (behind.rest.head?.map isGap).getD false then
              match Gap.scan margin (behind.rest.length + 1) .empty behind with
              | none => none
              | some (gap, next) =>
                  if !inFlow && next.column < margin then some ⟨extended, next, gap.broken⟩
                  else scanPlainFrom inFlow margin fuel extended gap next
            else some ⟨extended, behind, false⟩

/-- `margin` is the least column of the lines that go on with the scalar. -/
def scanPlain (inFlow : Bool) (margin : Nat) (cursor : Cursor) : Option Scanned :=
  scanPlainFrom inFlow margin (cursor.rest.length + 1) [] .empty cursor

def escaped? : Char → Option Char
  | '0' => some '\x00'
  | 'a' => some '\x07'
  | 'b' => some '\x08'
  | 't' => some '\t'
  | '\t' => some '\t'
  | 'n' => some '\n'
  | 'v' => some '\x0b'
  | 'f' => some '\x0c'
  | 'r' => some '\r'
  | 'e' => some '\x1b'
  | ' ' => some ' '
  | '"' => some '"'
  | '/' => some '/'
  | '\\' => some '\\'
  | 'N' => some '\u0085'
  | '_' => some '\u00a0'
  | 'L' => some '\u2028'
  | 'P' => some '\u2029'
  | _ => none

def escapeWidth? : Char → Option Nat
  | 'x' => some 2
  | 'u' => some 4
  | 'U' => some 8
  | _ => none

def numericEscape? (digits : Text) (width : Nat) : Option Char :=
  if digits.length < width then none
  else
    match Text.toNat? 16 digits with
    | none => none
    | some code =>
        if (0xD800 ≤ code && code ≤ 0xDFFF) || 0x10FFFF < code then none
        else some (Char.ofNat code)

/-- The part of a quoted scalar in front of the next gap or of the closing
quote. The last component tells whether an escaped line ending ended it. -/
def quotedPart? (quote : Char) : Nat → Text → Cursor → Option (Text × Cursor × Bool)
  | 0, _, _ => none
  | fuel + 1, text, cursor =>
      match cursor.rest with
      | [] => some (text, cursor, false)
      | character :: rest =>
          if isGap character then some (text, cursor, false)
          else if character = quote then
            if quote = '\'' && rest.head? == some '\'' then
              quotedPart? quote fuel (text ++ ['\'']) (cursor.skip 2)
            else some (text, cursor, false)
          else if character = '\\' && quote = '"' then
            match rest with
            | [] => none
            | letter :: digits =>
                if isBreak letter then some (text, (cursor.skip 1).skipBreak, true)
                else
                  match escapeWidth? letter with
                  | some width =>
                      match numericEscape? (digits.take width) width with
                      | some value =>
                          quotedPart? quote fuel (text ++ [value]) (cursor.skip (2 + width))
                      | none => none
                  | none =>
                      match escaped? letter with
                      | some value => quotedPart? quote fuel (text ++ [value]) (cursor.skip 2)
                      | none => none
          else quotedPart? quote fuel (text ++ [character]) (cursor.skip 1)

def scanQuotedFrom (quote : Char) : Nat → Text → Cursor → Option (Text × Cursor)
  | 0, _, _ => none
  | fuel + 1, text, cursor =>
      if cursor.isAtMarker || cursor.rest.isEmpty then none
      else
        match quotedPart? quote (cursor.rest.length + 1) text cursor with
        | none => none
        | some (text, cursor, escapedBreak) =>
            if cursor.rest.head? == some quote then some (text, cursor.skip 1)
            else
              let gap := { Gap.empty with broken := escapedBreak }
              match Gap.scan 0 (cursor.rest.length + 1) gap cursor with
              | none => none
              | some (gap, cursor) => scanQuotedFrom quote fuel (text ++ gap.text) cursor

/-- Starts in front of the opening quote. -/
def scanQuoted (quote : Char) (cursor : Cursor) : Option (Text × Cursor) :=
  scanQuotedFrom quote (cursor.rest.length + 1) [] (cursor.skip 1)

inductive Chomping where
  | strip
  | clip
  | keep
  deriving DecidableEq, Repr

def chomping? : Char → Option Chomping
  | '+' => some .keep
  | '-' => some .strip
  | _ => none

/-- How much deeper than its parent a block scalar stands; never nothing. -/
def increment? (character : Char) : Option Nat :=
  if Text.isDigit character then some (character.toNat - '0'.toNat) else none

/-- The indicators behind the first character of a block scalar, in either order. -/
def blockHeader? (cursor : Cursor) : Option (Chomping × Nat × Cursor) :=
  let header : Chomping × Option Nat × Nat :=
    match cursor.rest with
    | first :: second :: _ =>
        match chomping? first, increment? first with
        | some chomping, _ =>
            match increment? second with
            | some increment => (chomping, some increment, 2)
            | none => (chomping, none, 1)
        | none, some increment =>
            match chomping? second with
            | some chomping => (chomping, some increment, 2)
            | none => (.clip, some increment, 1)
        | none, none => (.clip, none, 0)
    | [first] =>
        match chomping? first, increment? first with
        | some chomping, _ => (chomping, none, 1)
        | none, some increment => (.clip, some increment, 1)
        | none, none => (.clip, none, 0)
    | [] => (.clip, none, 0)
  match header with
  | (_, some 0, _) => none
  | (chomping, increment, count) =>
      (cursor.skip count).finishLine?.map fun behind => (chomping, increment.getD 0, behind)

/-- Empty lines and indentation in front of the next line. While no indentation
is known (`indent` is zero), the deepest one seen is kept in `deepest`. -/
def blockBreaks? (indent : Nat) : Nat → Nat → Text → Cursor → Option (Nat × Text × Cursor)
  | 0, _, _, _ => none
  | fuel + 1, deepest, breaks, cursor =>
      let available := (cursor.rest.takeWhile (· == ' ')).length
      let indented := cursor.skip (if indent = 0 then available
        else min available (indent - cursor.column))
      let deepest := max deepest indented.column
      match indented.rest with
      | [] => some (deepest, breaks, indented)
      | character :: _ =>
          if character = '\t' && (indent = 0 || indented.column < indent) then none
          else if isBreak character then
            blockBreaks? indent fuel deepest (breaks ++ indented.breakText) indented.skipBreak
          else some (deepest, breaks, indented)

/-- The lines of a block scalar. `first` and `later` are the line endings not
yet written, and `spaced` says that the line before started with a space. -/
def blockLines? (isFolded : Bool) (indent : Nat) :
    Nat → Text → Text → Text → Bool → Cursor → Option (Text × Text × Text × Cursor)
  | 0, _, _, _, _, _ => none
  | fuel + 1, text, first, later, spaced, cursor =>
      match cursor.rest with
      | [] => some (text, first, later, cursor)
      | character :: _ =>
          if cursor.column != indent then some (text, first, later, cursor)
          else
            let startsSpaced := isSpace character
            let joined :=
              if isFolded && first.head? == some '\n' && !spaced && !startsSpaced then
                (if later.isEmpty then [' '] else []) ++ later
              else first ++ later
            let line := cursor.rest.takeWhile (!isBreak ·)
            let behind := cursor.skip line.length
            match blockBreaks? indent (behind.rest.length + 1) 0 [] behind.skipBreak with
            | none => none
            | some (_, breaks, next) =>
                blockLines? isFolded indent fuel (text ++ joined ++ line) behind.breakText breaks
                  startsSpaced next

/-- Starts behind the first indicator. `parent` is the indentation of the block
around, if there is one. -/
def scanBlock (isFolded : Bool) (parent : Option Nat) (cursor : Cursor) :
    Option (Text × Cursor) := do
  let (chomping, increment, cursor) ← blockHeader? cursor
  let known := if increment = 0 then 0 else parent.getD 0 + increment
  let (deepest, breaks, cursor) ← blockBreaks? known (cursor.rest.length + 1) 0 [] cursor
  let least := match parent with
    | some parent => parent + 1
    | none => 0
  let indent := if known = 0 then max 1 (max deepest least) else known
  let (text, first, later, cursor) ←
    blockLines? isFolded indent (cursor.rest.length + 1) [] [] breaks false cursor
  let tail := match chomping with
    | .strip => []
    | .clip => first
    | .keep => first ++ later
  return (text ++ tail, cursor)

end StylePurge.Yaml
