import StylePurge.Yaml.Event
import StylePurge.Yaml.Lexer

/-!
A YAML document as a tree. Anchors are numbered as they are met, by the number
of different names met before; an alias refers to a number, and a number stands
for the last node in document order that carries it.
-/

namespace StylePurge.Yaml

inductive Node where
  | scalar (anchor : Option Nat) (tag : Option Text) (text : Text) (style : Style)
  | reference (number : Nat)
  | sequence (anchor : Option Nat) (items : List Node)
  | mapping (anchor : Option Nat) (pairs : List (Node × Node))
  deriving Repr

/-- A collection whose next member is being read. Earlier members are kept in
reverse; a mapping may hold a key that waits for its value. -/
inductive Frame where
  | sequence (anchor : Option Nat) (items : List Node)
  | mapping (anchor : Option Nat) (pairs : List (Node × Node)) (key : Option Node)
  deriving Repr

structure Builder where
  names : List (Text × Nat)
  frames : List Frame
  root : Option Node
  deriving Repr

namespace Builder

def number (builder : Builder) : Option Text → Option Nat × Builder
  | none => (none, builder)
  | some name =>
      let number := builder.names.length
      let others := builder.names.filter fun entry => entry.1 != name
      (some number, { builder with names := others ++ [(name, number)] })

def add (builder : Builder) (node : Node) : Builder :=
  match builder.frames with
  | [] => { builder with root := some node }
  | .sequence anchor items :: outer =>
      { builder with frames := .sequence anchor (node :: items) :: outer }
  | .mapping anchor pairs none :: outer =>
      { builder with frames := .mapping anchor pairs (some node) :: outer }
  | .mapping anchor pairs (some key) :: outer =>
      { builder with frames := .mapping anchor ((key, node) :: pairs) none :: outer }

def step (builder : Builder) : Event → Option Builder
  | .scalar anchor tag text style =>
      let (number, builder) := builder.number anchor
      some (builder.add (.scalar number tag text style))
  | .reference name =>
      (builder.names.find? fun entry => entry.1 == name).map fun entry =>
        builder.add (.reference entry.2)
  | .sequenceStart anchor =>
      let (number, builder) := builder.number anchor
      some { builder with frames := .sequence number [] :: builder.frames }
  | .mappingStart anchor =>
      let (number, builder) := builder.number anchor
      some { builder with frames := .mapping number [] none :: builder.frames }
  | .sequenceEnd =>
      match builder.frames with
      | .sequence anchor items :: outer =>
          some ({ builder with frames := outer }.add (.sequence anchor items.reverse))
      | _ => none
  | .mappingEnd =>
      match builder.frames with
      | .mapping anchor pairs none :: outer =>
          some ({ builder with frames := outer }.add (.mapping anchor pairs.reverse))
      | _ => none

end Builder

namespace Node

def anchor? : Node → Option Nat
  | scalar anchor _ _ _ => anchor
  | reference _ => none
  | sequence anchor _ => anchor
  | mapping anchor _ => anchor

mutual

def preorder : Node → List Node
  | scalar anchor tag text style => [scalar anchor tag text style]
  | reference number => [reference number]
  | sequence anchor items => sequence anchor items :: preorderItems items
  | mapping anchor pairs => mapping anchor pairs :: preorderPairs pairs

def preorderItems : List Node → List Node
  | [] => []
  | item :: items => preorder item ++ preorderItems items

def preorderPairs : List (Node × Node) → List Node
  | [] => []
  | (key, value) :: pairs => preorder key ++ preorder value ++ preorderPairs pairs

end

/-- The node that an alias refers to; any other node stands for itself. -/
def resolve (root : Node) : Node → Option Node
  | reference number => ((preorder root).filter fun node => node.anchor? == some number).getLast?
  | node => some node

end Node

/-- A document, or nothing in an empty stream. -/
inductive Document where
  | empty
  | root (node : Node)
  deriving Repr

def read? (text : Text) : Option Document := do
  let events ← events? (← tokens? text)
  let builder ← events.foldlM Builder.step ⟨[], [], none⟩
  match builder.root with
  | some node => some (.root node)
  | none => some .empty

end StylePurge.Yaml
