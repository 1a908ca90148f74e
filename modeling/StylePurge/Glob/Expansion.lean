import StylePurge.FileTree
import StylePurge.Glob.Pattern

/-!
The paths of a file tree that a wildcard pattern names. The pattern is taken
component by component: one without wildcards is looked up, one with wildcards
is compared with every name in the directory, in ascending order and depth
first, and a double star reaches through any number of directories. Links to
directories are entered like directories.
-/

namespace StylePurge.Glob

/-- A pattern cut into components. `directoriesOnly` says that it ends in a slash. -/
structure Query where
  scope : Path
  components : List Pattern
  directoriesOnly : Bool
  deriving DecidableEq, Repr

def patternPieces (text : Text) : List Text :=
  let pieces := Text.splitAt (· == '/') text
  match pieces.getLast? with
  | some [] => pieces.dropLast
  | _ => pieces

/-- The pattern has to be well formed as a whole and in every component. -/
def Query.ofPattern (text : Text) : Except PatternFault Query := do
  let _ ← compile text
  let absolute := text.head? == some '/'
  let body := if absolute then text.drop 1 else text
  let components ← (patternPieces body).mapM compile
  .ok
    { scope := if absolute then ⟨['/']⟩ else ⟨Path.dot⟩
      components := if body.isEmpty then components ++ [⟨[]⟩] else components
      directoriesOnly := text.getLast? == some '/' }

def below (path : Path) (piece : Text) : Path :=
  if path.same ⟨Path.dot⟩ then ⟨piece⟩ else path.join piece

def childNames (tree : FileTree) (path : Path) : List Text :=
  match tree.locate .follow path with
  | .ok location => tree.names location
  | .error _ => []

def accept (tree : FileTree) (directoriesOnly : Bool) (path : Path) : List Path :=
  if directoriesOnly && !tree.isDirectory path then [] else [path]

mutual

/-- The paths that the components name below a directory. `depth` bounds how far
double stars may still reach. -/
def search (tree : FileTree) (directoriesOnly : Bool) (depth : Nat) (components : List Pattern)
    (path : Path) : List Path :=
  match components with
  | [] => accept tree directoriesOnly path
  | pattern :: rest =>
      match pattern.literal? with
      | some piece =>
          let next := below path piece
          let isThere :=
            if piece = Path.dot || piece = Path.dots then tree.isDirectory path
            else tree.names? next
          if isThere then search tree directoriesOnly depth rest next else []
      | none =>
          if !tree.isDirectory path then []
          else
            let special := [Path.dots, Path.dot].filter fun piece =>
              pattern.startsWithDot && pattern.matches piece
            special.flatMap (fun piece =>
              search tree directoriesOnly depth rest (path.join piece)) ++
            (childNames tree path).flatMap fun name =>
              visit tree directoriesOnly depth (pattern :: rest) (below path name)
termination_by (depth, components.length, 2)

/-- The paths that the components name at a path just found. A double star
passes over a path that is no directory, and it passes over a directory both
here and below. -/
def visit (tree : FileTree) (directoriesOnly : Bool) (depth : Nat) (components : List Pattern)
    (path : Path) : List Path :=
  match components with
  | [] => []
  | pattern :: rest =>
      if !pattern.isRecursive then compare tree directoriesOnly depth (pattern :: rest) path
      else
        let behind := rest.dropWhile Pattern.isRecursive
        let deeper :=
          match depth with
          | 0 => []
          | depth + 1 =>
              if tree.isDirectory path then
                search tree directoriesOnly depth (pattern :: behind) path
              else []
        if behind.isEmpty then
          if tree.isDirectory path then path :: deeper else []
        else compare tree directoriesOnly depth behind path ++ deeper
termination_by (depth, components.length, 1)
decreasing_by
  all_goals simp_wf
  · exact Prod.Lex.right _ (Prod.Lex.right _ (by omega))
  · exact Prod.Lex.left _ _ (by omega)
  · have bound := (List.dropWhile_suffix Pattern.isRecursive (l := rest)).length_le
    exact Prod.Lex.right _ (Prod.Lex.left _ _ (by omega))

/-- The paths that the components name at a path, the first component being
compared with the last name of the path. -/
def compare (tree : FileTree) (directoriesOnly : Bool) (depth : Nat) (components : List Pattern)
    (path : Path) : List Path :=
  match components, path.fileName? with
  | pattern :: rest, some name =>
      if pattern.matches name then search tree directoriesOnly depth rest path else []
  | _, _ => []
termination_by (depth, components.length, 0)

end

/-- Between two links a path goes down at most as far as the tree is deep. -/
def depthBound (tree : FileTree) : Nat :=
  let depths := tree.entries.map fun entry => entry.1.length
  (FileTree.maxLinks + 1) * (depths.foldl max 0 + 1) + 1

def Query.paths (query : Query) (tree : FileTree) : List Path :=
  search tree query.directoriesOnly (depthBound tree) query.components query.scope

/-- The paths that a pattern names, in the order in which they are found. -/
def expand (tree : FileTree) (pattern : Text) : Except PatternFault (List Path) :=
  (Query.ofPattern pattern).map (·.paths tree)

end StylePurge.Glob
