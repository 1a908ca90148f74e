import StylePurge.Json.Token

/-!
Reads a JSON document from its words with a stack of open arrays and objects.
Exactly one value has to remain at the end.
-/

namespace StylePurge.Json

/-- An array or object whose next value is being read. Earlier entries are kept
in reverse. -/
inductive Frame where
  | array (items : List Json)
  | member (members : List (Literal × Json)) (key : Literal)
  deriving Repr

inductive Phase where
  | value
  | firstItem
  | firstKey
  | key (members : List (Literal × Json))
  | colon (members : List (Literal × Json)) (key : Literal)
  | done (value : Json)
  deriving Repr

structure Machine where
  frames : List Frame
  phase : Phase
  deriving Repr

def beginValue (frames : List Frame) : Token → Option Machine
  | .openArray => some ⟨frames, .firstItem⟩
  | .openObject => some ⟨frames, .firstKey⟩
  | .scalar atom => some ⟨frames, .done (.scalar atom)⟩
  | _ => none

def continueAfter (value : Json) : List Frame → Token → Option Machine
  | .array items :: frames, .comma => some ⟨.array (value :: items) :: frames, .value⟩
  | .array items :: frames, .closeArray =>
      some ⟨frames, .done (.array (value :: items).reverse)⟩
  | .member members key :: frames, .comma => some ⟨frames, .key ((key, value) :: members)⟩
  | .member members key :: frames, .closeObject =>
      some ⟨frames, .done (.object ((key, value) :: members).reverse)⟩
  | _, _ => none

def Machine.step (machine : Machine) (token : Token) : Option Machine :=
  match machine.phase, token with
  | .value, token => beginValue machine.frames token
  | .firstItem, .closeArray => some ⟨machine.frames, .done (.array [])⟩
  | .firstItem, token => beginValue (.array [] :: machine.frames) token
  | .firstKey, .closeObject => some ⟨machine.frames, .done (.object [])⟩
  | .firstKey, .scalar (.string key) => some ⟨machine.frames, .colon [] key⟩
  | .key members, .scalar (.string key) => some ⟨machine.frames, .colon members key⟩
  | .colon members key, .colon => some ⟨.member members key :: machine.frames, .value⟩
  | .done value, token => continueAfter value machine.frames token
  | _, _ => none

def Machine.start : Machine := ⟨[], .value⟩

def Machine.result? (machine : Machine) : Option Json :=
  match machine.frames, machine.phase with
  | [], .done value => some value
  | _, _ => none

def ofTokens? (tokens : List Token) : Option Json :=
  (tokens.foldlM Machine.step Machine.start).bind Machine.result?

def read? (text : Text) : Option Json := (tokens? text).bind ofTokens?

end StylePurge.Json
