import StylePurge.Yaml.Token

/-!
Cuts a YAML stream into words. Indentation opens and closes blocks; a key that
no mark introduces is only recognised at the colon behind it, so its word is put
in front of it afterwards. Such a key stands on one line and has at most 1024
characters. Any fault refuses the stream.
-/

namespace StylePurge.Yaml

/-- A place where a key may have started. `position` is the number of words in
front of it, and a required key has to turn out to be one. -/
structure KeyPlace where
  possible : Bool
  required : Bool
  position : Nat
  index : Nat
  line : Nat
  column : Nat
  deriving DecidableEq, Repr

def KeyPlace.nowhere : KeyPlace := ⟨false, false, 0, 0, 0, 0⟩

/-- `indents` are the columns of the open blocks, innermost first; `block` and
`flows` hold a key place for the blocks and for each open flow collection. -/
structure Lexer where
  cursor : Cursor
  indents : List Nat
  block : KeyPlace
  flows : List KeyPlace
  keyAllowed : Bool
  tokens : Array Token
  finished : Bool
  deriving Repr

namespace Lexer

def start (text : Text) : Lexer :=
  { cursor := .start text
    indents := []
    block := .nowhere
    flows := []
    keyAllowed := true
    tokens := #[]
    finished := false }

def inFlow (lexer : Lexer) : Bool := !lexer.flows.isEmpty

def indent? (lexer : Lexer) : Option Nat := lexer.indents.head?

/-- The least column of lines that belong to the innermost block. -/
def margin (lexer : Lexer) : Nat :=
  match lexer.indent? with
  | some column => column + 1
  | none => 0

def push (lexer : Lexer) (token : Token) : Lexer :=
  { lexer with tokens := lexer.tokens.push token }

def insert (lexer : Lexer) (position : Nat) (token : Token) : Lexer :=
  { lexer with
    tokens := lexer.tokens.extract 0 position ++ #[token] ++
      lexer.tokens.extract position lexer.tokens.size }

def keyPlace (lexer : Lexer) : KeyPlace := lexer.flows.head?.getD lexer.block

def setKeyPlace (lexer : Lexer) (place : KeyPlace) : Lexer :=
  match lexer.flows with
  | _ :: outer => { lexer with flows := place :: outer }
  | [] => { lexer with block := place }

/-- Spaces, comments and line endings in front of the next word. A tab counts as
space where no key could start, and a new line lets a key start in a block. -/
def skipGap : Nat → Lexer → Lexer
  | 0, lexer => lexer
  | fuel + 1, lexer =>
      let cursor := lexer.cursor
      let cursor :=
        if cursor.column = 0 && cursor.rest.head? == some byteOrderMark then cursor.skip 1
        else cursor
      let tabsPass := lexer.inFlow || !lexer.keyAllowed
      let cursor := cursor.skipWhile fun character =>
        character == ' ' || (tabsPass && character == '\t')
      let cursor := cursor.skipComment
      match cursor.rest with
      | character :: _ =>
          if isBreak character then
            skipGap fuel
              { lexer with
                cursor := cursor.skipBreak
                keyAllowed := lexer.keyAllowed || !lexer.inFlow }
          else { lexer with cursor := cursor }
      | [] => { lexer with cursor := cursor }

def isStale (cursor : Cursor) (place : KeyPlace) : Bool :=
  place.possible && (place.line < cursor.line || place.index + 1024 < cursor.index)

def dropStale (lexer : Lexer) : Option Lexer :=
  let places := lexer.block :: lexer.flows
  if places.any fun place => isStale lexer.cursor place && place.required then none
  else
    let drop (place : KeyPlace) : KeyPlace :=
      if isStale lexer.cursor place then { place with possible := false } else place
    some { lexer with block := drop lexer.block, flows := lexer.flows.map drop }

/-- Closes the blocks that stand to the right of a column, or all blocks. -/
def unroll (column? : Option Nat) (lexer : Lexer) : Lexer :=
  if lexer.inFlow then lexer
  else
    let isClosed (indent : Nat) : Bool :=
      match column? with
      | some column => column < indent
      | none => true
    let closed := lexer.indents.takeWhile isClosed
    { lexer with
      indents := lexer.indents.dropWhile isClosed
      tokens := lexer.tokens ++ (closed.map fun _ => Token.blockEnd).toArray }

/-- Opens a block at a column if it stands to the right of the innermost one.
The opening word goes in front of the word with the given number. -/
def roll (column position : Nat) (token : Token) (lexer : Lexer) : Lexer :=
  if lexer.inFlow || column < lexer.margin then lexer
  else { lexer.insert position token with indents := column :: lexer.indents }

def removeKey (lexer : Lexer) : Option Lexer :=
  let place := lexer.keyPlace
  if place.possible && place.required then none
  else some (lexer.setKeyPlace { place with possible := false })

def saveKey (lexer : Lexer) : Option Lexer :=
  if !lexer.keyAllowed then some lexer
  else
    let cursor := lexer.cursor
    let required := !lexer.inFlow && lexer.indent? == some cursor.column
    lexer.removeKey.map fun lexer =>
      lexer.setKeyPlace
        ⟨true, required, lexer.tokens.size, cursor.index, cursor.line, cursor.column⟩

def finish (lexer : Lexer) : Option Lexer :=
  (lexer.unroll none).removeKey.map fun lexer => { lexer with finished := true }

/-- Words that end everything open: directives and document markers. -/
def takeAtStart (lexer : Lexer) (take : Cursor → Option (Token × Cursor)) : Option Lexer := do
  let lexer ← (lexer.unroll none).removeKey
  let (token, cursor) ← take lexer.cursor
  return { lexer.push token with cursor := cursor, keyAllowed := false }

def takeMarker (lexer : Lexer) (token : Token) : Option Lexer :=
  lexer.takeAtStart fun cursor => some (token, cursor.skip 3)

def takeMark (lexer : Lexer) (token : Token) : Lexer :=
  { lexer.push token with cursor := lexer.cursor.skip 1 }

def openFlow (lexer : Lexer) (token : Token) : Option Lexer := do
  let lexer ← lexer.saveKey
  return { lexer.takeMark token with keyAllowed := true, flows := .nowhere :: lexer.flows }

def closeFlow (lexer : Lexer) (token : Token) : Option Lexer := do
  let lexer ← lexer.removeKey
  return { lexer.takeMark token with keyAllowed := false, flows := lexer.flows.drop 1 }

def takeFlowEntry (lexer : Lexer) : Option Lexer := do
  let lexer ← lexer.removeKey
  return { lexer.takeMark .flowEntry with keyAllowed := true }

/-- In a block, a mark for an entry, a key or a value needs a place where a key
may start, and it opens a block if it has to. -/
def rollAtMark (lexer : Lexer) (token : Token) : Option Lexer :=
  if lexer.inFlow then some lexer
  else if !lexer.keyAllowed then none
  else some (lexer.roll lexer.cursor.column lexer.tokens.size token)

def takeBlockEntry (lexer : Lexer) : Option Lexer := do
  let lexer ← (← lexer.rollAtMark .blockSequenceStart).removeKey
  return { lexer.takeMark .blockEntry with keyAllowed := true }

def takeKey (lexer : Lexer) : Option Lexer := do
  let lexer ← (← lexer.rollAtMark .blockMappingStart).removeKey
  return { lexer.takeMark .key with keyAllowed := !lexer.inFlow }

def takeValue (lexer : Lexer) : Option Lexer :=
  let place := lexer.keyPlace
  if place.possible then
    let keyed := (lexer.insert place.position .key).roll place.column place.position
      .blockMappingStart
    let settled := keyed.setKeyPlace { place with possible := false }
    some { settled.takeMark .value with keyAllowed := false }
  else do
    let lexer ← lexer.rollAtMark .blockMappingStart
    return { lexer.takeMark .value with keyAllowed := !lexer.inFlow }

def takeNode (lexer : Lexer) (take : Cursor → Option (Token × Cursor)) : Option Lexer := do
  let lexer ← lexer.saveKey
  let (token, cursor) ← take lexer.cursor
  return { lexer.push token with cursor := cursor, keyAllowed := false }

def takeBlockScalar (lexer : Lexer) (isFolded : Bool) : Option Lexer := do
  let lexer ← lexer.removeKey
  let (text, cursor) ← scanBlock isFolded lexer.indent? (lexer.cursor.skip 1)
  let style := if isFolded then Style.folded else Style.literal
  return { lexer.push (.scalar text style) with cursor := cursor, keyAllowed := true }

/-- After a line ending behind the scalar a key may start again. -/
def takePlain (lexer : Lexer) : Option Lexer := do
  let lexer ← lexer.saveKey
  let scanned ← scanPlain lexer.inFlow lexer.margin lexer.cursor
  return { lexer.push (.scalar scanned.text .plain) with
    cursor := scanned.cursor
    keyAllowed := scanned.broken }

def startsPlain (inFlow : Bool) (character : Char) (rest : Text) : Bool :=
  let isIndicator := ['-', '?', ':', ',', '[', ']', '\x7b', '\x7d', '#', '&', '*', '!', '|', '>',
    '\'', '"', '%', '@', '`'].contains character
  !isIndicator || (character == '-' && !(rest.head?.map isSpace).getD false) ||
    (!inFlow && (character == '?' || character == ':') && !endsWord rest)

def takeWord (lexer : Lexer) : Option Lexer :=
  let cursor := lexer.cursor
  match cursor.rest with
  | [] => lexer.finish
  | character :: rest =>
      let marks := lexer.inFlow || endsWord rest
      if cursor.column = 0 && character = '%' then lexer.takeAtStart scanDirective
      else if cursor.isAtMarker then
        lexer.takeMarker (if character = '-' then .documentStart else .documentEnd)
      else if character = '[' then lexer.openFlow .flowSequenceStart
      else if character = '\x7b' then lexer.openFlow .flowMappingStart
      else if character = ']' then lexer.closeFlow .flowSequenceEnd
      else if character = '\x7d' then lexer.closeFlow .flowMappingEnd
      else if character = ',' then lexer.takeFlowEntry
      else if character = '-' && endsWord rest then lexer.takeBlockEntry
      else if character = '?' && marks then lexer.takeKey
      else if character = ':' && marks then lexer.takeValue
      else if character = '*' then
        lexer.takeNode fun cursor => (scanAnchor cursor).map fun (name, behind) =>
          (.reference name, behind)
      else if character = '&' then
        lexer.takeNode fun cursor => (scanAnchor cursor).map fun (name, behind) =>
          (.anchor name, behind)
      else if character = '!' then lexer.takeNode (scanTag lexer.inFlow)
      else if character = '|' && !lexer.inFlow then lexer.takeBlockScalar false
      else if character = '>' && !lexer.inFlow then lexer.takeBlockScalar true
      else if character = '\'' || character = '"' then
        lexer.takeNode fun cursor => (scanQuoted character cursor).map fun (text, behind) =>
          (.scalar text .quoted, behind)
      else if startsPlain lexer.inFlow character rest then lexer.takePlain
      else none

def step (lexer : Lexer) : Option Lexer := do
  let lexer ← (skipGap (lexer.cursor.rest.length + 1) lexer).dropStale
  (lexer.unroll (some lexer.cursor.column)).takeWord

def run : Nat → Lexer → Option Lexer
  | 0, _ => none
  | fuel + 1, lexer => if lexer.finished then some lexer else lexer.step.bind (run fuel)

end Lexer

/-- All words of a stream. A byte order mark in front of it does not count. -/
def tokens? (text : Text) : Option (List Token) :=
  if !text.all isAllowed then none
  else
    let body := match text with
      | character :: rest => if character = byteOrderMark then rest else text
      | [] => []
    (Lexer.run (body.length + 2) (.start body)).map fun lexer => lexer.tokens.toList

end StylePurge.Yaml
