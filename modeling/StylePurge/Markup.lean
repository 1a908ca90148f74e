import StylePurge.OrderedSet
import StylePurge.Text.Word

/-!
Class names in markup. Only attributes of the form `class="…"` count, and only
when the value is a run of name characters, spaces and colons. A colon separates
names just like a space, so a name with a state contributes both of its parts.
-/

namespace StylePurge.Markup

def opening : Text := ['c', 'l', 'a', 's', 's', '=', '"']

def isValueCharacter (character : Char) : Bool :=
  Text.isNameCharacter character || character == ' ' || character == ':'

/-- The value that stands at the front of the text, if it is not empty and is
closed by a quote, and the text behind that quote. -/
def value? (text : Text) : Option (Text × Text) :=
  match text.dropWhile isValueCharacter with
  | '"' :: rest =>
      let value := text.takeWhile isValueCharacter
      if value.isEmpty then none else some (value, rest)
  | _ => none

def attribute? (text : Text) : Option (Text × Text) :=
  if text.startsWith opening then value? (text.drop opening.length) else none

theorem value_rest_length {text value rest : Text} (found : value? text = some (value, rest)) :
    rest.length ≤ text.length := by
  have suffix := (List.dropWhile_suffix isValueCharacter (l := text)).length_le
  unfold value? at found
  split at found
  · rename_i behind equation
    rw [equation, List.length_cons] at suffix
    simp only [Option.ite_none_left_eq_some, Option.some.injEq, Prod.mk.injEq] at found
    rw [← found.2.2]
    omega
  · simp at found

theorem attribute_rest_length {text value rest : Text}
    (found : attribute? text = some (value, rest)) : rest.length < text.length := by
  unfold attribute? at found
  split at found
  · rename_i starts
    have bound := value_rest_length found
    have front : opening.isPrefixOf text = true := starts
    have long := (List.isPrefixOf_iff_prefix.1 front).length_le
    simp only [List.length_drop] at bound
    have size : opening.length = 7 := rfl
    omega
  · simp at found

/-- The attribute values from left to right. The scan goes on behind a value,
and one character further where no attribute stands. -/
def attributeValues (markup : Text) : List Text :=
  match markup with
  | [] => []
  | character :: rest =>
      match found : attribute? (character :: rest) with
      | some (value, behind) =>
          have : behind.length < (character :: rest).length := attribute_rest_length found
          value :: attributeValues behind
      | none => attributeValues rest
termination_by markup.length
decreasing_by
  · exact this
  · exact Nat.lt_succ_self rest.length

def valueNames (value : Text) : List Text :=
  Text.words (value.map fun character => if character = ':' then ' ' else character)

def classes (markup : Text) : OrderedSet Text :=
  .ofList ((attributeValues markup).flatMap valueNames)

end StylePurge.Markup
