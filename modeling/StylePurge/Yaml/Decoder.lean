import StylePurge.Text.Decimal
import StylePurge.Yaml.Node

/-!
Decoding YAML nodes into values of the library. Any scalar is a text, however it
looks; truth values and counts have to be plain. A place left empty stands for
an empty list or a record of defaults, a written null does not.
-/

namespace StylePurge.Yaml

/-- A decoder sees the whole document, in which aliases are looked up. -/
abbrev Decoder (Value : Type) := Node → Node → Option Value

def isEmptyPlain (text : Text) (style : Style) : Bool := text.isEmpty && style == .plain

namespace Decoder

def resolved {Value : Type} (decode : Node → Option Value) (root node : Node) : Option Value :=
  (Node.resolve root node).bind decode

def text : Decoder Text :=
  resolved fun
    | .scalar _ _ text _ => some text
    | _ => none

/-- Truth values and counts are plain scalars, or literal ones with their tag. -/
def isTyped (expected : String) (tag : Option Text) (style : Style) : Bool :=
  style == .plain || (style == .literal && tag == some expected.toList)

def boolOfText? (text : Text) : Option Bool :=
  if ["true", "True", "TRUE"].contains (Text.toString text) then some true
  else if ["false", "False", "FALSE"].contains (Text.toString text) then some false
  else none

def bool : Decoder Bool :=
  resolved fun
    | .scalar _ tag text style =>
        if isTyped "tag:yaml.org,2002:bool" tag style then boolOfText? text else none
    | _ => none

def based? (base : Nat) (text : Text) : Option Nat := (Text.toNat? base text).bind Text.word?

/-- A count: decimal without leading zeros, or hexadecimal, octal or binary
behind a mark. One plus sign may stand in front. -/
def wordOfText? (text : Text) : Option Nat :=
  let unsigned := match text with
    | '+' :: rest => rest
    | _ => text
  match unsigned with
  | '0' :: 'x' :: digits => based? 16 digits
  | '0' :: 'o' :: digits => based? 8 digits
  | '0' :: 'b' :: digits => based? 2 digits
  | '0' :: _ :: _ => none
  | digits => based? 10 digits

def word : Decoder Nat :=
  resolved fun
    | .scalar _ tag text style =>
        if isTyped "tag:yaml.org,2002:int" tag style then wordOfText? text else none
    | _ => none

def list {Value : Type} (decode : Decoder Value) : Decoder (List Value) := fun root =>
  resolved (fun
    | .sequence _ items => items.mapM (decode root)
    | .scalar _ _ text style => if isEmptyPlain text style then some [] else none
    | _ => none) root

/-- The values of named fields, in the order of `names`. Keys are texts, other
keys do not matter, and no field may be given twice. -/
def fields (names : List String) : Decoder (List (Option Node)) := fun root =>
  resolved (fun
    | .mapping _ pairs => do
        let named ← pairs.mapM fun (key, value) => (text root key).map fun name => (name, value)
        names.mapM fun name =>
          match named.filter fun pair => pair.1 == name.toList with
          | [] => some none
          | [pair] => some (some pair.2)
          | _ => none
    | .scalar _ _ text style =>
        if isEmptyPlain text style then some (names.map fun _ => none) else none
    | _ => none) root

def withDefault {Value : Type} (default : Value) (decode : Decoder Value) (root : Node) :
    Option Node → Option Value
  | some node => decode root node
  | none => some default

end Decoder

end StylePurge.Yaml
