import StylePurge.Path
import StylePurge.Text.Utf8

/-!
A tree of files, directories and symbolic links as a plain value: which entry
stands at which location. Locations are lists of names from the root; paths are
resolved to locations by walking through the tree from the working directory.
A file is known by its number, so that one file can stand under several names.
Sizes and names are in bytes.
-/

namespace StylePurge

abbrev Location := List Text

inductive Entry where
  | file (number : Nat)
  | directory
  | link (target : Path)
  deriving DecidableEq, Repr

inductive Fault where
  | notFound
  | busy
  | exists
  | notDirectory
  | isDirectory
  | nameTooLong
  | tooManyLinks
  | nullInPath
  | notText
  /-- What the machine reports in its own words, such as that there is no space left. -/
  | device (reason : Text)
  deriving DecidableEq, Repr

def Fault.message : Fault → String
  | notFound => "No such file or directory (os error 2)"
  | busy => "Device or resource busy (os error 16)"
  | «exists» => "File exists (os error 17)"
  | notDirectory => "Not a directory (os error 20)"
  | isDirectory => "Is a directory (os error 21)"
  | nameTooLong => "File name too long (os error 36)"
  | tooManyLinks => "Too many levels of symbolic links (os error 40)"
  | nullInPath => "file name contained an unexpected NUL byte"
  | notText => "stream did not contain valid UTF-8"
  | device reason => Text.toString reason

/-- The root is a directory without an entry of its own. `contents` holds the content of
each file at the place of its number. -/
structure FileTree where
  working : Location
  entries : List (Location × Entry)
  contents : List Text.Bytes
  deriving DecidableEq, Repr

namespace FileTree

def entry? (tree : FileTree) (location : Location) : Option Entry :=
  if location.isEmpty then some .directory
  else (tree.entries.find? fun entry => entry.1 == location).map Prod.snd

def isDirectoryAt (tree : FileTree) (location : Location) : Bool :=
  tree.entry? location == some .directory

def place (tree : FileTree) (location : Location) (entry : Entry) : FileTree :=
  if (tree.entry? location).isSome then
    { tree with
      entries := tree.entries.map fun old => if old.1 = location then (location, entry) else old }
  else { tree with entries := tree.entries ++ [(location, entry)] }

def remove (tree : FileTree) (location : Location) : FileTree :=
  { tree with entries := tree.entries.filter fun old => !location.isPrefixOf old.1 }

def names (tree : FileTree) (directory : Location) : List Text :=
  let inside := tree.entries.filterMap fun entry =>
    if entry.1.dropLast = directory then entry.1.getLast? else none
  inside.mergeSort Text.precedes

/-- What happens at the last piece of a path: a link is kept or followed, and
when a file is to be created it may be missing. -/
inductive Ending where
  | keep
  | follow
  | create
  deriving DecidableEq, Repr

def maxNameSize : Nat := 255

/-- A path with its final zero byte has to fit. -/
def maxPathSize : Nat := 4095

def maxLinks : Nat := 40

def isNothing (piece : Text) : Bool := piece.isEmpty || piece == Path.dot

/-- Walks piece by piece. Every piece starts from a directory, so a path that
ends in a slash leads to a directory. Links are handed to `jump` together with
the pieces that are left. -/
def walkPieces (tree : FileTree) (ending : Ending)
    (jump : Location → List Text → Except Fault Location) :
    Location → List Text → Except Fault Location
  | location, [] => .ok location
  | location, piece :: rest =>
      if !tree.isDirectoryAt location then .error .notDirectory
      else if isNothing piece then walkPieces tree ending jump location rest
      else if piece = Path.dots then walkPieces tree ending jump location.dropLast rest
      else if maxNameSize < Text.byteSize piece then .error .nameTooLong
      else
        let next := location ++ [piece]
        match tree.entry? next with
        | none =>
            if ending = .create && rest.isEmpty then .ok next
            else .error .notFound
        | some (.link target) =>
            if ending = .keep && rest.isEmpty then .ok next
            else jump (if target.isAbsolute then [] else location) (target.pieces ++ rest)
        | some _ => walkPieces tree ending jump next rest

def walk (tree : FileTree) (ending : Ending) : Nat → Location → List Text → Except Fault Location
  | 0 => walkPieces tree ending fun _ _ => .error .tooManyLinks
  | links + 1 => walkPieces tree ending (walk tree ending links)

def base (tree : FileTree) (path : Path) : Location := if path.isAbsolute then [] else tree.working

def checkPath (path : Path) : Except Fault Unit :=
  if '\x00' ∈ path.text then .error .nullInPath
  else if path.text.isEmpty then .error .notFound
  else if maxPathSize < Text.byteSize path.text then .error .nameTooLong
  else .ok ()

def locate (tree : FileTree) (ending : Ending) (path : Path) : Except Fault Location := do
  checkPath path
  tree.walk ending maxLinks (tree.base path) path.pieces

def lookup (tree : FileTree) (path : Path) : Except Fault Entry := do
  let location ← tree.locate .follow path
  match tree.entry? location with
  | some entry => .ok entry
  | none => .error .notFound

def isDirectory (tree : FileTree) (path : Path) : Bool :=
  match tree.lookup path with
  | .ok .directory => true
  | _ => false

def isLink (tree : FileTree) (path : Path) : Bool :=
  match tree.locate .keep path with
  | .ok location =>
      match tree.entry? location with
      | some (.link _) => true
      | _ => false
  | .error _ => false

/-- Whether the path names anything, be it a link that leads nowhere. -/
def names? (tree : FileTree) (path : Path) : Bool :=
  match tree.locate .keep path with
  | .ok _ => true
  | .error _ => false

/-- Every file has a content in a tree that comes from a disk. -/
def content (tree : FileTree) (number : Nat) : Except Fault Text.Bytes :=
  match tree.contents[number]? with
  | some content => .ok content
  | none => .error .notFound

def readBytes (tree : FileTree) (path : Path) : Except Fault Text.Bytes := do
  match ← tree.lookup path with
  | .file number => tree.content number
  | .directory => .error .isDirectory
  | .link _ => .error .notFound

def readText (tree : FileTree) (path : Path) : Except Fault Text := do
  match Text.decode (← tree.readBytes path) with
  | .ok text => .ok text
  | .error _ => .error .notText

def fileSize (tree : FileTree) (path : Path) : Except Fault Nat := do
  match ← tree.lookup path with
  | .file number => (tree.content number).map List.length
  | _ => .ok 0

end FileTree

end StylePurge
