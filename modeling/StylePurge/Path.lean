import StylePurge.Text

/-!
Paths as they are written, and their components. Two paths with the same
components are the same path: repeated and trailing slashes do not count, nor do
single dots unless a relative path starts with one.
-/

namespace StylePurge

structure Path where
  text : Text
  deriving DecidableEq, Repr

namespace Path

inductive Component where
  | root
  | current
  | parent
  | name (name : Text)
  deriving DecidableEq, Repr

def dot : Text := ['.']

def dots : Text := ['.', '.']

def isAbsolute (path : Path) : Bool := path.text.head? == some '/'

def pieces (path : Path) : List Text := Text.splitAt (· == '/') path.text

def component? (piece : Text) : Option Component :=
  if piece.isEmpty || piece = dot then none
  else if piece = dots then some .parent
  else some (.name piece)

def components (path : Path) : List Component :=
  let body := path.pieces.filterMap component?
  if path.isAbsolute then .root :: body
  else if path.pieces.head? = some dot then .current :: body
  else body

def same (left right : Path) : Bool := left.components == right.components

def join (path : Path) (piece : Text) : Path :=
  if path.text.isEmpty || path.text.getLast? == some '/' then ⟨path.text ++ piece⟩
  else ⟨path.text ++ ['/'] ++ piece⟩

def fileName? (path : Path) : Option Text :=
  match path.components.getLast? with
  | some (.name name) => some name
  | _ => none

/-- What a path begins with whatever is cut off its end, and the pieces behind that. -/
def parts (path : Path) : Text × List Text :=
  if path.isAbsolute then (['/'], path.pieces.tail)
  else if path.pieces.head? = some dot then (dot, path.pieces.tail)
  else ([], path.pieces)

def ofParts (front : Text) (body : List Text) : Path :=
  if body.isEmpty then ⟨front⟩ else (Path.mk front).join (Text.joinWith ['/'] body)

/-- The pieces are given from the last to the first. Slashes and single dots at the end
of a path name nothing and go with the component behind them. -/
def upwards (front : Text) : List Text → List Path
  | [] => if front.isEmpty then [] else [⟨front⟩]
  | piece :: outer =>
      if (component? piece).isNone then upwards front outer
      else ofParts front (piece :: outer).reverse :: upwards front outer

/-- The path and what stays of it, as it is written, when its components are cut off
one after the other. The empty path is left out. -/
def ancestors (path : Path) : List Path := upwards path.parts.1 path.parts.2.reverse

def parents (path : Path) : List Path := path.ancestors.tail

/-- The same path with another name at its end. A path that does not end in a
name is extended. -/
def withFileName (path : Path) (name : Text) : Path :=
  (if path.fileName?.isSome then path.parents.headD ⟨[]⟩ else path).join name

/-- The part of the file name behind its last dot, unless nothing stands before
that dot. -/
def extension? (path : Path) : Option Text :=
  match path.fileName? with
  | none => none
  | some name =>
      match (Text.splitAt (· == '.') name).reverse with
      | [] => none
      | [_] => none
      | [last, first] => if first.isEmpty then none else some last
      | last :: _ => some last

end Path

end StylePurge
