import StylePurge.Json.Value

/-!
Two layouts of a JSON document: on one line without spaces, and with one entry
a line, indented by two spaces a level. Empty arrays and objects are written
without a line break.
-/

namespace StylePurge.Json

def hexDigit (value : Nat) : Char := Nat.digitChar value

/-- Quotes, backslashes and control characters are escaped, nothing else is. -/
def escape (character : Char) : Text :=
  match character with
  | '"' => ['\\', '"']
  | '\\' => ['\\', '\\']
  | '\x08' => ['\\', 'b']
  | '\x0c' => ['\\', 'f']
  | '\n' => ['\\', 'n']
  | '\r' => ['\\', 'r']
  | '\t' => ['\\', 't']
  | character =>
      if character < ' ' then
        ['\\', 'u', '0', '0', hexDigit (character.toNat / 16), hexDigit (character.toNat % 16)]
      else [character]

def quote (text : Text) : Text := ['"'] ++ text.flatMap escape ++ ['"']

/-- A literal without text is written as half of a surrogate pair. -/
def literalText : Literal → Text
  | some text => quote text
  | none => ['"', '\\', 'u', 'd', '8', '0', '0', '"']

def scalarText : Scalar → Text
  | .null => ['n', 'u', 'l', 'l']
  | .bool true => ['t', 'r', 'u', 'e']
  | .bool false => ['f', 'a', 'l', 's', 'e']
  | .number digits => digits
  | .string literal => literalText literal

mutual

def compact : Json → Text
  | .scalar atom => scalarText atom
  | .array items => ['['] ++ compactItems items ++ [']']
  | .object members => ['\x7b'] ++ compactMembers members ++ ['\x7d']

def compactItems : List Json → Text
  | [] => []
  | [item] => compact item
  | item :: items => compact item ++ [','] ++ compactItems items

def compactMembers : List (Literal × Json) → Text
  | [] => []
  | [(key, value)] => literalText key ++ [':'] ++ compact value
  | (key, value) :: members =>
      literalText key ++ [':'] ++ compact value ++ [','] ++ compactMembers members

end

def newLine (level : Nat) : Text := '\n' :: List.replicate (2 * level) ' '

mutual

def prettyAt (level : Nat) : Json → Text
  | .scalar atom => scalarText atom
  | .array [] => ['[', ']']
  | .array (item :: items) =>
      ['['] ++ prettyItems (level + 1) (item :: items) ++ newLine level ++ [']']
  | .object [] => ['\x7b', '\x7d']
  | .object (member :: members) =>
      ['\x7b'] ++ prettyMembers (level + 1) (member :: members) ++ newLine level ++ ['\x7d']

def prettyItems (level : Nat) : List Json → Text
  | [] => []
  | [item] => newLine level ++ prettyAt level item
  | item :: items => newLine level ++ prettyAt level item ++ [','] ++ prettyItems level items

def prettyMembers (level : Nat) : List (Literal × Json) → Text
  | [] => []
  | [(key, value)] => newLine level ++ literalText key ++ [':', ' '] ++ prettyAt level value
  | (key, value) :: members =>
      newLine level ++ literalText key ++ [':', ' '] ++ prettyAt level value ++ [','] ++
        prettyMembers level members

end

def pretty (document : Json) : Text := prettyAt 0 document

end StylePurge.Json
