import StylePurge.Config
import StylePurge.Error
import StylePurge.Glob.Expansion
import StylePurge.Machine
import StylePurge.Whitelist

/-!
Content files: which files of a tree the patterns select, and the class names
their markup uses. A file is judged once however many patterns name it;
excluded paths and directories are passed over in silence, and files that the
restrictions refuse are passed over with a message.
-/

namespace StylePurge

structure ContentFile where
  path : Path
  size : Nat
  deriving DecidableEq, Repr

namespace Content

/-- Judges one file by the restrictions; an accepted file comes with its size. -/
def judge (tree : FileTree) (limits : Limits) (path : Path) : Except Refusal Nat :=
  if !limits.allowLinks && tree.isLink path then .error (.isLink path)
  else
    match tree.fileSize path with
    | .error fault => .error (.noMetadata path fault)
    | .ok size =>
        if limits.maxFileSize < size then .error (.tooLarge path size limits.maxFileSize)
        else .ok size

def isPassedOver (tree : FileTree) (exclude : List Glob.Pattern) (path : Path) : Bool :=
  exclude.any (·.matches path.text) || tree.isDirectory path

/-- Files selected so far, in order, and the number of files refused. `seen`
holds the components of every file that has been judged. -/
structure Selection where
  files : List ContentFile
  seen : List (List Path.Component)
  refused : Nat
  log : Log

def Selection.start : Selection := ⟨[], [], 0, []⟩

def Selection.consider (tree : FileTree) (exclude : List Glob.Pattern) (limits : Limits)
    (selection : Selection) (path : Path) : Selection :=
  if isPassedOver tree exclude path || selection.seen.contains path.components then selection
  else
    let judged := { selection with seen := path.components :: selection.seen }
    match judge tree limits path with
    | .ok size => { judged with files := selection.files ++ [⟨path, size⟩] }
    | .error refusal =>
        { judged with
          refused := selection.refused + 1
          log := selection.log ++ [.skippedFile (Error.refused refusal).message] }

/-- Goes through the patterns in turn. A pattern that is not well formed ends
the selection; what was reported until then stays reported. -/
def selectFrom (tree : FileTree) (exclude : List Glob.Pattern) (limits : Limits)
    (selection : Selection) : List Text → Selection × Option Glob.PatternFault
  | [] => (selection, none)
  | pattern :: patterns =>
      match Glob.expand tree pattern with
      | .error fault => (selection, some fault)
      | .ok paths =>
          selectFrom tree exclude limits
            (paths.foldl (Selection.consider tree exclude limits) selection) patterns

def select (tree : FileTree) (patterns exclude : List Text) (limits : Limits) :
    Logged Selection :=
  match exclude.mapM Glob.compile with
  | .error fault => .fail (.pattern fault)
  | .ok exclude =>
      match selectFrom tree exclude limits .start patterns with
      | (selection, some fault) => ⟨selection.log, .error (.pattern fault)⟩
      | (selection, none) => ⟨selection.log, .ok selection⟩

def collect (tree : FileTree) (patterns exclude : List Text) (limits : Limits) :
    Logged (List ContentFile) := do
  let selection ← select tree patterns exclude limits
  if 0 < selection.refused then
    Logged.report [.skippedFiles selection.refused]
  return selection.files

def fileClasses (tree : FileTree) (path : Path) : Except Error (OrderedSet Text) :=
  match tree.readText path with
  | .ok markup => .ok (Markup.classes markup)
  | .error fault => .error (.unreadable path fault)

def merge (perFile : List (OrderedSet Text)) : Whitelist := perFile.foldl OrderedSet.union .empty

/-- The class names of many files in the order of the files. One file that
cannot be read spoils the whole. -/
def whitelist (tree : FileTree) (paths : List Path) : Logged Whitelist := do
  let perFile ← Logged.ofExcept (paths.mapM (fileClasses tree))
  let whitelist := merge perFile
  Logged.report [.collected whitelist.size paths.length]
  return whitelist

/-- Workers that are asked for by number have to be started; without a number the machine
has its own. -/
def startWorkers (machine : Machine) (jobs : Option Nat) : Except Error Unit :=
  match jobs with
  | none => .ok ()
  | some count =>
      match machine.workersRefusal? count with
      | some reason => .error (.noWorkers count reason)
      | none => .ok ()

def scanFiles (machine : Machine) (jobs : Option Nat) (tree : FileTree) (paths : List Path) :
    Logged Whitelist := do
  Logged.ofExcept (startWorkers machine jobs)
  whitelist tree paths

def totalSize : List ContentFile → Nat
  | [] => 0
  | file :: files => file.size + totalSize files

/-- The paths to scan. Finding none is an error. -/
def discover (tree : FileTree) (patterns exclude : List Text) (limits : Limits) :
    Logged (List Path) := do
  let files ← collect tree patterns exclude limits
  if files.isEmpty then Logged.fail .noFiles
  else
    Logged.report [.foundFiles files.length (totalSize files)]
    return files.map ContentFile.path

end Content

end StylePurge
