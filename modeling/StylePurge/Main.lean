import Std.Time.Format
import StylePurge.CommandLine.Program

/-!
The command line program. It takes the working directory in as a value, lets the
library work on that value and writes the differences back. Links are taken in
with the place they lead to, and what lies outside the working directory is not
taken in.
-/

open StylePurge

namespace StylePurge.Main

def locationOf (path : String) : Location :=
  (Text.splitAt (· == '/') path.toList).filter fun name => !name.isEmpty

def pathText (location : Location) : String :=
  "/" ++ String.ofList (Text.joinWith ['/'] location)

/-- The entries below a directory, each directory before what it holds. Every file gets a
number of its own. -/
partial def takeIn (location : Location) :
    StateT (List Text.Bytes) IO (List (Location × Entry)) := do
  let directory ← IO.FS.realPath (pathText location)
  let mut entries := []
  for entry in ← directory.readDir do
    let place := location ++ [entry.fileName.toList]
    match (← entry.path.symlinkMetadata).type with
    | .dir => entries := entries ++ (place, Entry.directory) :: (← takeIn place)
    | .file =>
        let content ← IO.FS.readBinFile entry.path
        let contents ← get
        set (contents ++ [content.toList])
        entries := entries ++ [(place, Entry.file contents.length)]
    | .symlink =>
        let target ← IO.FS.realPath entry.path
        entries := entries ++ [(place, Entry.link ⟨target.toString.toList⟩)]
    | .other => pure ()
  return entries

def chain (location : Location) : List (Location × Entry) :=
  (List.range location.length).map fun count => (location.take (count + 1), .directory)

def workingTree : IO FileTree := do
  let working := locationOf (← IO.currentDir).toString
  let (entries, contents) ← (takeIn working).run []
  return ⟨working, chain working ++ entries, contents⟩

/-- Writes a file beside its place and moves it there. -/
def replaceFile (place : String) (content : Text.Bytes) : IO Unit := do
  IO.FS.writeBinFile (place ++ ".tmp") ⟨content.toArray⟩
  IO.FS.rename (place ++ ".tmp") place

def contentAt? (tree : FileTree) (location : Location) : Option Text.Bytes :=
  match tree.entry? location with
  | some (.file number) => (tree.content number).toOption
  | _ => none

def writeBack (before after : FileTree) : IO Unit := do
  for (location, _) in before.entries do
    if (after.entry? location).isNone then IO.FS.removeFile (pathText location)
  for (location, entry) in after.entries do
    match entry with
    | .directory =>
        if before.entry? location ≠ some .directory then IO.FS.createDirAll (pathText location)
    | .file _ =>
        let content := contentAt? after location
        if contentAt? before location ≠ content then
          replaceFile (pathText location) (content.getD [])
    | .link _ => pure ()

def twoDigits (number : Nat) : String := if number < 10 then s!"0{number}" else s!"{number}"

def now : IO Timestamp := do
  let seconds := (← Std.Time.Timestamp.now).toSecondsSinceUnixEpoch.toInt.toNat
  let date := Std.Time.PlainDate.ofEpochDay ⟨seconds / 86400⟩
  let rest := seconds % 86400
  let time := s!"{twoDigits (rest / 3600)}:{twoDigits (rest / 60 % 60)}:{twoDigits (rest % 60)}"
  return (Timestamp.ofText? s!"{date}T{time}Z".toList).getD Timestamp.epoch

def levelName : LogLevel → String
  | .debug => "DEBUG"
  | .info => "INFO"
  | .warn => "WARN"

/-- Text that is passed through is read only when the command wants it. -/
def inputFor (words : List Text) : IO Text.Bytes := do
  match CommandLine.read words with
  | .ok (.pipe _) => return (← (← IO.getStdin).readBinToEnd).toList
  | _ => return []

end StylePurge.Main

def main (arguments : List String) : IO UInt32 := do
  let words := arguments.map String.toList
  let started ← IO.monoMsNow
  let input ← Main.inputFor words
  let tree ← Main.workingTree
  let clock : Clock := ⟨← Main.now, (← IO.monoMsNow) - started⟩
  let run := CommandLine.run words input .willing clock tree
  Main.writeBack tree run.tree
  for message in run.log do
    IO.eprintln s!"[{Main.levelName message.level}] {message.text}"
  IO.print (Text.toString run.finish.output)
  IO.eprint (Text.toString run.finish.complaint)
  return UInt32.ofNat run.finish.code
