import StylePurge.Whitelist

/-!
Whitelists that are filled side by side, each under a label. A step adds to one of them. The
caller is told whether an inserted name was new, and how many names markup has added.
-/

namespace StylePurge

namespace Whitelist

def insertTold (whitelist : Whitelist) (name : Text) : Whitelist × Bool :=
  (whitelist.insert name, !whitelist.contains name)

def addMarkupTold (whitelist : Whitelist) (markup : Text) : Whitelist × Nat :=
  let grown := whitelist.addMarkup markup
  (grown, grown.size - whitelist.size)

end Whitelist

structure Shelf (Label : Type) where
  whitelist : Label → Whitelist

namespace Shelf

variable {Label : Type}

/-- What is added to a whitelist. The other whitelist of a merge gives the names that it holds
by then, and keeps them. -/
inductive Addition (Label : Type) where
  | insert (name : Text)
  | addMarkup (markup : Text)
  | extend (names : List Text)
  | merge (other : Label)

abbrev Addition.Told : Addition Label → Type
  | .insert _ => Bool
  | .addMarkup _ => Nat
  | .extend _ => Unit
  | .merge _ => Unit

structure Step (Label : Type) where
  label : Label
  addition : Addition Label

def empty : Shelf Label := ⟨fun _ => .empty⟩

def addTo (shelf : Shelf Label) (whitelist : Whitelist) :
    (addition : Addition Label) → Whitelist × addition.Told
  | .insert name => whitelist.insertTold name
  | .addMarkup markup => whitelist.addMarkupTold markup
  | .extend names => (whitelist.insertAll names, ())
  | .merge other => (whitelist.union (shelf.whitelist other), ())

variable [DecidableEq Label]

def place (shelf : Shelf Label) (label : Label) (whitelist : Whitelist) : Shelf Label :=
  ⟨fun other => if other = label then whitelist else shelf.whitelist other⟩

def step (shelf : Shelf Label) (step : Step Label) : Shelf Label × step.addition.Told :=
  let added := shelf.addTo (shelf.whitelist step.label) step.addition
  (shelf.place step.label added.1, added.2)

def run (shelf : Shelf Label) (steps : List (Step Label)) : Shelf Label :=
  steps.foldl (fun shelf step => (shelf.step step).1) shelf

end Shelf

end StylePurge
