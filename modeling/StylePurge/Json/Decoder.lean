import StylePurge.Json.Value

/-!
Decoding documents into values of the library. Decoders are strict about types:
a count has to be written as a whole number, a text as a string.
-/

namespace StylePurge.Json

def text? : Json → Option Text
  | .scalar (.string literal) => literal
  | _ => none

def bool? : Json → Option Bool
  | .scalar (.bool value) => some value
  | _ => none

def word? : Json → Option Nat
  | .scalar (.number digits) => (Text.toNat? 10 digits).bind Text.word?
  | _ => none

def list? {Value : Type} (decode : Json → Option Value) : Json → Option (List Value)
  | .array items => items.mapM decode
  | _ => none

def members? : Json → Option (List (Text × Json))
  | .object members => members.mapM fun (key, value) => key.map fun name => (name, value)
  | _ => none

/-- The value of a named field: absent if no member has the name, and a fault
if two have it. -/
def field? (members : List (Text × Json)) (name : String) : Option (Option Json) :=
  match members.filter fun member => member.1 == name.toList with
  | [] => some none
  | [member] => some (some member.2)
  | _ => none

/-- How a record without some of its fields is taken when it is written as an
array: trailing fields may be missing, or all have to be there. -/
inductive Shortness where
  | mayBeShort
  | complete
  deriving DecidableEq, Repr

/-- The fields of a record in the order of `names`. A record is an object, whose
other members do not matter, or an array of the fields in order. -/
def fields? (names : List String) (shortness : Shortness) : Json → Option (List (Option Json))
  | .array items =>
      if items.length = names.length then some (items.map some)
      else if items.length < names.length && shortness == .mayBeShort then
        some (items.map some ++ List.replicate (names.length - items.length) none)
      else none
  | .object members => do
      let named ← members? (.object members)
      names.mapM (field? named)
  | .scalar _ => none

def required {Value : Type} (decode : Json → Option Value) : Option Json → Option Value
  | some value => decode value
  | none => none

def optional {Value : Type} (decode : Json → Option Value) : Option Json → Option (Option Value)
  | some (.scalar .null) => some none
  | some value => (decode value).map some
  | none => some none

def withDefault {Value : Type} (default : Value) (decode : Json → Option Value) :
    Option Json → Option Value
  | some value => decode value
  | none => some default

end StylePurge.Json
