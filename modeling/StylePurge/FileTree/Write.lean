import StylePurge.Machine

/-!
Changes of a file tree. An operation that fails half way leaves what it did
before it failed. Replacing a file writes a second file beside it first and
renames that one; when something fails after the second file has been opened,
it stays behind.
-/

namespace StylePurge

abbrev Change := ExceptT Fault (StateM FileTree)

namespace FileTree

/-- The directory that a path leads into and the last piece of the path. Slashes
behind the last piece are passed over, and `slashed` tells that there were some. -/
structure Target where
  directory : Location
  piece : Text
  slashed : Bool
  deriving DecidableEq, Repr

def target (tree : FileTree) (path : Path) : Except Fault Target := do
  checkPath path
  let reversed := path.pieces.reverse
  let slashes := reversed.takeWhile List.isEmpty
  match reversed.dropWhile List.isEmpty with
  | [] => .ok ⟨[], [], true⟩
  | piece :: outer =>
      let directory ← tree.walk .follow maxLinks (tree.base path) outer.reverse
      if tree.isDirectoryAt directory then .ok ⟨directory, piece, !slashes.isEmpty⟩
      else .error .notDirectory

/-- The root and dots are no names that an entry could be created under. -/
def isSpecial (piece : Text) : Bool := isNothing piece || piece == Path.dots

def Target.location (target : Target) : Location := target.directory ++ [target.piece]

def madeDirectory (tree : FileTree) (path : Path) : Except Fault FileTree := do
  let target ← tree.target path
  if isSpecial target.piece then .error .exists
  else if maxNameSize < Text.byteSize target.piece then .error .nameTooLong
  else if (tree.entry? target.location).isSome then .error .exists
  else .ok (tree.place target.location .directory)

/-- A new file. -/
def added (tree : FileTree) (location : Location) (content : Text.Bytes) : FileTree :=
  { tree.place location (.file tree.contents.length) with contents := tree.contents ++ [content] }

/-- The content of a file shows under all its names. -/
def filled (tree : FileTree) (number : Nat) (content : Text.Bytes) : FileTree :=
  { tree with contents := tree.contents.set number content }

/-- Opens a file to be written, by its number. A file that stands there is emptied. -/
def openedFile (tree : FileTree) (path : Path) : Except Fault (Nat × FileTree) := do
  let location ← tree.locate .create path
  match tree.entry? location with
  | some (.file number) => .ok (number, tree.filled number [])
  | none => .ok (tree.contents.length, tree.added location [])
  | some _ => .error .isDirectory

def linked (tree : FileTree) (path : Path) (link : Path) : Except Fault FileTree := do
  let target ← tree.target path
  if isSpecial target.piece || (tree.entry? target.location).isSome then .error .exists
  else .ok (tree.place target.location (.link link))

/-- Whether what stands at one location stands at the other too, under a second name. -/
def isOne (tree : FileTree) (machine : Machine) (entry : Entry) (old new : Location) : Bool :=
  tree.entry? new == some entry &&
    match entry with
    | .link _ => machine.isOneLink tree old new
    | _ => true

/-- Moves an entry that is no directory. A directory is never replaced, and where both
names are names of one file, both stay. -/
def renamed (tree : FileTree) (machine : Machine) (source destination : Path) :
    Except Fault FileTree := do
  let old ← tree.target source
  let new ← tree.target destination
  if isSpecial new.piece then .error .busy
  else
    match tree.entry? old.location with
    | none => .error .notFound
    | some entry =>
        if maxNameSize < Text.byteSize new.piece then .error .nameTooLong
        else if new.slashed then .error .notDirectory
        else if tree.isDirectoryAt new.location then .error .isDirectory
        else if tree.isOne machine entry old.location new.location then .ok tree
        else .ok ((tree.remove old.location).place new.location entry)

end FileTree

namespace Change

def ofStep {Value : Type} (step : FileTree → Except Fault (Value × FileTree)) : Change Value :=
  fun tree =>
    match step tree with
    | .ok (value, changed) => (.ok value, changed)
    | .error fault => (.error fault, tree)

def ofUpdate (update : FileTree → Except Fault FileTree) : Change Unit :=
  ofStep fun tree => (update tree).map fun changed => ((), changed)

/-- A call that is refused changes nothing. -/
def call {Value : Type} (machine : Machine) (call : Call) (change : Change Value) :
    Change Value := fun tree =>
  match machine.refusal? call tree with
  | some reason => (.error (.device reason), tree)
  | none => change tree

def makeDirectory (machine : Machine) (path : Path) : Change Unit :=
  call machine (.makeDirectory path) (ofUpdate (·.madeDirectory path))

def create (machine : Machine) (path : Path) : Change Nat :=
  call machine (.create path) (ofStep (·.openedFile path))

/-- A write that is refused leaves the front of the content that got through. -/
def write (machine : Machine) (number : Nat) (content : Text.Bytes) : Change Unit := fun tree =>
  let call := Call.write number content
  match machine.refusal? call tree with
  | some reason =>
      (.error (.device reason), tree.filled number (content.take (machine.progress call tree)))
  | none => (.ok (), tree.filled number content)

def secure (machine : Machine) (number : Nat) : Change Unit :=
  call machine (.secure number) (pure ())

def rename (machine : Machine) (source destination : Path) : Change Unit :=
  call machine (.rename source destination) (ofUpdate (·.renamed machine source destination))

def writeFile (machine : Machine) (path : Path) (content : Text.Bytes) : Change Unit := do
  let number ← create machine path
  write machine number content
  secure machine number

/-- Makes the first of some paths a directory; each path is the parent of the one before
it and is made only if that is missing. A directory that stands is left. -/
def makeDirectories (machine : Machine) : List Path → Change Unit
  | [] => pure ()
  | path :: parents => fun tree =>
      let settle (fault : Fault) (tree : FileTree) : Except Fault Unit × FileTree :=
        if tree.isDirectory path then (.ok (), tree) else (.error fault, tree)
      match makeDirectory machine path tree with
      | (.ok (), made) => (.ok (), made)
      | (.error .notFound, tree) =>
          match makeDirectories machine parents tree with
          | (.error fault, tree) => (.error fault, tree)
          | (.ok (), tree) =>
              match makeDirectory machine path tree with
              | (.ok (), made) => (.ok (), made)
              | (.error fault, tree) => settle fault tree
      | (.error fault, tree) => settle fault tree

def makeParents (machine : Machine) (path : Path) : Change Unit :=
  makeDirectories machine path.parents

def besidePath (path : Path) : Path :=
  path.withFileName (path.fileName?.getD [] ++ ['.', 't', 'm', 'p'])

def replaceFile (machine : Machine) (path : Path) (content : Text.Bytes) : Change Unit := do
  writeFile machine (besidePath path) content
  rename machine (besidePath path) path

end Change

end StylePurge
