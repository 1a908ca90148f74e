import StylePurge.Yaml.Scalar

/-!
The words of a YAML stream that take characters of their own: directives, tags,
anchors and aliases.
-/

namespace StylePurge.Yaml

inductive Token where
  | version (major minor : Nat)
  | tagDirective (handle tagPrefix : Text)
  | documentStart
  | documentEnd
  | blockSequenceStart
  | blockMappingStart
  | blockEnd
  | flowSequenceStart
  | flowSequenceEnd
  | flowMappingStart
  | flowMappingEnd
  | flowEntry
  | blockEntry
  | key
  | value
  | reference (name : Text)
  | anchor (name : Text)
  | tag (handle suffix : Text)
  | scalar (text : Text) (style : Style)
  deriving DecidableEq, Repr

def versionNumber? (text : Text) : Option (Nat × Text) :=
  let digits := text.takeWhile Text.isDigit
  if 9 < digits.length then none
  else (Text.toNat? 10 digits).map fun number => (number, text.drop digits.length)

def isTagCharacter (verbatim : Bool) (character : Char) : Bool :=
  isNameCharacter character ||
    [';', '/', '?', ':', '@', '&', '=', '+', '$', '.', '%', '!', '~', '*', '\'', '(', ')'].contains
      character ||
    (verbatim && [',', '[', ']'].contains character)

def escapedByte? : Text → Option (Nat × Text)
  | '%' :: high :: low :: rest => (Text.toNat? 16 [high, low]).map fun byte => (byte, rest)
  | _ => none

def escapedTail? : Nat → Nat → Text → Option (Char × Text)
  | 0, code, rest => some (Char.ofNat code, rest)
  | count + 1, code, text =>
      match escapedByte? text with
      | some (byte, rest) =>
          if byte / 0x40 = 2 then escapedTail? count (code * 0x40 + byte % 0x40) rest else none
      | none => none

def escapedCharacter? (text : Text) : Option (Char × Text) := do
  let (byte, rest) ← escapedByte? text
  if byte < 0x80 then some (Char.ofNat byte, rest)
  else if byte / 0x20 = 6 then escapedTail? 1 (byte % 0x20) rest
  else if byte / 0x10 = 14 then escapedTail? 2 (byte % 0x10) rest
  else if byte / 0x8 = 30 then escapedTail? 3 (byte % 0x8) rest
  else none

/-- The longest text of tag characters, with its escapes resolved. -/
def tagTextFrom? (verbatim : Bool) : Nat → Text → Text → Option (Text × Text)
  | 0, _, _ => none
  | fuel + 1, done, text =>
      match text with
      | [] => some (done, [])
      | character :: rest =>
          if !isTagCharacter verbatim character then some (done, text)
          else if character = '%' then
            match escapedCharacter? text with
            | some (value, rest) => tagTextFrom? verbatim fuel (done ++ [value]) rest
            | none => none
          else tagTextFrom? verbatim fuel (done ++ [character]) rest

def tagText? (verbatim : Bool) (text : Text) : Option (Text × Text) :=
  tagTextFrom? verbatim (text.length + 1) [] text

/-- An exclamation mark, and name characters with another one if there are any. -/
def tagHandle? : Text → Option (Text × Text)
  | '!' :: rest =>
      let name := rest.takeWhile isNameCharacter
      match rest.drop name.length with
      | '!' :: behind => some (['!'] ++ name ++ ['!'], behind)
      | behind => some (['!'] ++ name, behind)
  | _ => none

/-- A tag behind its mark: verbatim in angle brackets, with a handle, or plain. -/
def tag? (text : Text) : Option (Text × Text × Text) :=
  match text with
  | '!' :: '<' :: rest => do
      let (suffix, behind) ← tagText? true rest
      if suffix.isEmpty then none
      else
        match behind with
        | '>' :: behind => some ([], suffix, behind)
        | _ => none
  | _ => do
      let (handle, rest) ← tagHandle? text
      if 1 < handle.length && handle.getLast? == some '!' then
        let (suffix, behind) ← tagText? false rest
        if suffix.isEmpty then none else some (handle, suffix, behind)
      else
        let (suffix, behind) ← tagText? false rest
        let whole := handle.drop 1 ++ suffix
        if whole.isEmpty then some ([], ['!'], behind) else some (['!'], whole, behind)

def Cursor.moveTo (cursor : Cursor) (rest : Text) : Cursor :=
  cursor.skip (cursor.rest.length - rest.length)

def scanVersion (cursor : Cursor) : Option (Token × Cursor) := do
  let cursor := cursor.skipWhile isSpace
  let (major, rest) ← versionNumber? cursor.rest
  match rest with
  | '.' :: rest =>
      let (minor, rest) ← versionNumber? rest
      some (.version major minor, cursor.moveTo rest)
  | _ => none

def scanTagDirective (cursor : Cursor) : Option (Token × Cursor) := do
  let cursor := cursor.skipWhile isSpace
  let (handle, rest) ← tagHandle? cursor.rest
  if handle != ['!'] && (handle.length < 2 || handle.getLast? != some '!') then none
  else if !((rest.head?.map isSpace).getD false) then none
  else
    let cursor := (cursor.moveTo rest).skipWhile isSpace
    let (tagPrefix, rest) ← tagText? true cursor.rest
    if tagPrefix.isEmpty || !endsWord rest then none
    else some (.tagDirective handle tagPrefix, cursor.moveTo rest)

/-- A directive with its line; others than version and tag are refused. -/
def scanDirective (cursor : Cursor) : Option (Token × Cursor) := do
  let cursor := cursor.skip 1
  let name := cursor.rest.takeWhile isNameCharacter
  let behind := cursor.skip name.length
  if !endsWord behind.rest then none
  else
    let (token, cursor) ←
      if name = ['Y', 'A', 'M', 'L'] then scanVersion behind
      else if name = ['T', 'A', 'G'] then scanTagDirective behind
      else none
    return (token, ← cursor.finishLine?)

def endsAnchor : Text → Bool
  | [] => true
  | character :: _ =>
      isGap character || ['?', ':', ',', ']', '\x7d', '%', '@', '`'].contains character

def scanAnchor (cursor : Cursor) : Option (Text × Cursor) :=
  let cursor := cursor.skip 1
  let name := cursor.rest.takeWhile isNameCharacter
  let behind := cursor.skip name.length
  if name.isEmpty || !endsAnchor behind.rest then none else some (name, behind)

/-- A tag is followed by space, or by a comma inside a flow collection. -/
def scanTag (inFlow : Bool) (cursor : Cursor) : Option (Token × Cursor) := do
  let (handle, suffix, rest) ← tag? cursor.rest
  if (inFlow && rest.head? == some ',') || endsWord rest then
    some (.tag handle suffix, cursor.moveTo rest)
  else none

end StylePurge.Yaml
