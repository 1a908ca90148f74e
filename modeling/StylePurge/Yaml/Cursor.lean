import StylePurge.Text

/-!
A position in a YAML stream, with its line and column, and the characters that
the format tells apart. Lines end at line feeds, carriage returns, next-line
characters and the two Unicode separators; a carriage return and a line feed in
a row are one ending.
-/

namespace StylePurge.Yaml

def isAllowed (character : Char) : Bool :=
  let code := character.toNat
  code == 0x09 || code == 0x0A || code == 0x0D || (0x20 ≤ code && code ≤ 0x7E) || code == 0x85 ||
    (0xA0 ≤ code && code ≤ 0xD7FF) || (0xE000 ≤ code && code ≤ 0xFFFD) || 0x10000 ≤ code

def isBreak (character : Char) : Bool :=
  character == '\n' || character == '\r' || character == '\u0085' || character == '\u2028' ||
    character == '\u2029'

def isSpace (character : Char) : Bool := character == ' ' || character == '\t'

def isGap (character : Char) : Bool := isSpace character || isBreak character

def isNameCharacter (character : Char) : Bool :=
  character.isAlphanum || character == '_' || character == '-'

def byteOrderMark : Char := '\ufeff'

def endsWord : Text → Bool
  | [] => true
  | character :: _ => isGap character

def endsLine : Text → Bool
  | [] => true
  | character :: _ => isBreak character

structure Cursor where
  rest : Text
  index : Nat
  line : Nat
  column : Nat
  deriving DecidableEq, Repr

namespace Cursor

def start (text : Text) : Cursor := ⟨text, 0, 0, 0⟩

def skip (cursor : Cursor) (count : Nat) : Cursor :=
  { cursor with
    rest := cursor.rest.drop count
    index := cursor.index + count
    column := cursor.column + count }

def skipWhile (cursor : Cursor) (passes : Char → Bool) : Cursor :=
  cursor.skip (cursor.rest.takeWhile passes).length

def skipBreak (cursor : Cursor) : Cursor :=
  match cursor.rest with
  | '\r' :: '\n' :: rest => ⟨rest, cursor.index + 2, cursor.line + 1, 0⟩
  | character :: rest =>
      if isBreak character then ⟨rest, cursor.index + 1, cursor.line + 1, 0⟩ else cursor
  | [] => cursor

/-- What a line ending in front of the cursor contributes to a scalar. -/
def breakText (cursor : Cursor) : Text :=
  match cursor.rest with
  | [] => []
  | character :: _ =>
      if character = '\u2028' || character = '\u2029' then [character]
      else if isBreak character then ['\n']
      else []

def skipComment (cursor : Cursor) : Cursor :=
  match cursor.rest with
  | '#' :: _ => cursor.skipWhile (!isBreak ·)
  | _ => cursor

/-- Spaces, a comment and the end of the line; none if anything else stands there. -/
def finishLine? (cursor : Cursor) : Option Cursor :=
  let behind := (cursor.skipWhile isSpace).skipComment
  if endsLine behind.rest then some behind.skipBreak else none

def isAtMarker (cursor : Cursor) : Bool :=
  cursor.column == 0 &&
    match cursor.rest with
    | '-' :: '-' :: '-' :: rest => endsWord rest
    | '.' :: '.' :: '.' :: rest => endsWord rest
    | _ => false

end Cursor

end StylePurge.Yaml
