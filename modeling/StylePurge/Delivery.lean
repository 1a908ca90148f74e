import StylePurge.FileTree.Write
import StylePurge.Outcome
import StylePurge.Report.Document

/-!
Carrying a request out: what was computed is written to files. Each file is
replaced as a whole, one after the other, and the first that fails ends the run
with those before it in place. A dry run and a run that fails before the first
file leave the tree as it is.
-/

namespace StylePurge

structure Delivery (Value : Type) where
  outcome : Logged Value
  tree : FileTree

namespace Delivery

def writeFile (machine : Machine) (path : Path) (content : Text) : Change Unit := do
  Change.makeParents machine path
  Change.replaceFile machine path (Text.encode content)

/-- Writes files in turn up to the first one that fails. -/
def writeFiles (machine : Machine) (tree : FileTree) :
    List (Path × Text) → Except Error Unit × FileTree
  | [] => (.ok (), tree)
  | (path, content) :: files =>
      match writeFile machine path content tree with
      | (.ok (), written) => writeFiles machine written files
      | (.error fault, written) => (.error (.notWritten path fault), written)

end Delivery

namespace PurgeRequest

def files (request : PurgeRequest) (outcome : Outcome) : List (Path × Text) :=
  (request.output, outcome.css) ::
    request.report.toList.map fun path => (path, outcome.report.toPrettyText)

def run (request : PurgeRequest) (machine : Machine) (clock : Clock) (tree : FileTree) :
    Delivery Outcome :=
  let computed := request.outcome machine clock tree
  match computed.result with
  | .error _ => ⟨computed, tree⟩
  | .ok outcome =>
      if request.dryRun then ⟨⟨computed.log ++ [.nothingWritten], .ok outcome⟩, tree⟩
      else
        match Delivery.writeFiles machine tree (request.files outcome) with
        | (.ok (), written) => ⟨computed, written⟩
        | (.error error, written) => ⟨⟨computed.log, .error error⟩, written⟩

end PurgeRequest

namespace Stylesheet

def load (tree : FileTree) (path : Path) : Logged Stylesheet :=
  match tree.readText path with
  | .error .notFound => Logged.fail (.inputNotFound path)
  | .error fault => Logged.fail (.file fault)
  | .ok css => ⟨parseLog css, .ok (parse css)⟩

/-- Writes the purged stylesheet to a file. A fault tells the path only if it
concerns the file itself and not the directories above it. -/
def purgeInto (sheet : Stylesheet) (whitelist : Whitelist) (keepBanner : Bool) (path : Path)
    (machine : Machine) (tree : FileTree) : Delivery Unit :=
  let log := sheet.purgeLog whitelist
  let content := Text.encode (sheet.purge whitelist keepBanner)
  match Change.makeParents machine path tree with
  | (.error fault, left) => ⟨⟨log, .error (.file fault)⟩, left⟩
  | (.ok (), prepared) =>
      match Change.replaceFile machine path content prepared with
      | (.error fault, left) => ⟨⟨log, .error (.notWritten path fault)⟩, left⟩
      | (.ok (), written) => ⟨⟨log, .ok ()⟩, written⟩

end Stylesheet

end StylePurge
