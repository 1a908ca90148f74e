import StylePurge.Text.Decimal

/-!
JSON documents. Numbers keep the text they were written with, and objects keep
all their members in order, repeated keys included; what to make of both is up
to whoever decodes a document.
-/

namespace StylePurge

namespace Json

/-- A string literal that names half of a surrogate pair without the other half
is well formed but denotes no text. -/
abbrev Literal := Option Text

inductive Scalar where
  | null
  | bool (value : Bool)
  | number (digits : Text)
  | string (literal : Literal)
  deriving DecidableEq, Repr

end Json

inductive Json where
  | scalar (scalar : Json.Scalar)
  | array (items : List Json)
  | object (members : List (Json.Literal × Json))
  deriving Repr

namespace Json

instance : Inhabited Json := ⟨.scalar .null⟩

def null : Json := .scalar .null

def bool (value : Bool) : Json := .scalar (.bool value)

def ofNat (number : Nat) : Json := .scalar (.number (Text.ofNat number))

def ofText (text : Text) : Json := .scalar (.string (some text))

def ofTexts (texts : List Text) : Json := .array (texts.map ofText)

end Json

end StylePurge
