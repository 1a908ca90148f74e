import StylePurge.Config.File
import StylePurge.Content
import StylePurge.Report
import StylePurge.Request
import StylePurge.Whitelist.File

/-!
What a request comes to on a given tree: the whitelist from all sources, the
purged stylesheet and the report on it. Nothing in this module changes the tree.
-/

namespace StylePurge

/-- What a run needs to know about time: when the report is made, and how many
milliseconds the work took until then. -/
structure Clock where
  now : Timestamp
  elapsedMillis : Nat
  deriving DecidableEq

structure Outcome where
  css : Text
  report : Report
  whitelist : Whitelist
  filesScanned : Nat

namespace Content

/-- The class names of the files that the patterns select, and their number.
Without any pattern nothing is looked for; patterns that select nothing fail. -/
def scan (machine : Machine) (jobs : Option Nat) (tree : FileTree)
    (patterns exclude : List Text) (limits : Limits) : Logged (Whitelist × Nat) := do
  if patterns.isEmpty then return (.empty, 0)
  let paths ← discover tree patterns exclude limits
  let whitelist ← scanFiles machine jobs tree paths
  return (whitelist, paths.length)

end Content

namespace PurgeRequest

def settings (request : PurgeRequest) (tree : FileTree) : Except Error Config := do
  let base ← match request.config with
    | some path => Config.load tree path
    | none => .ok .default
  return base.merge request.overlay

def listedNames (tree : FileTree) : Option Path → Except Error Whitelist
  | some path => Whitelist.load tree path
  | none => .ok .empty

/-- Safelisted names come first, then the whitelist file, then the markup. -/
def gatherWhitelist (request : PurgeRequest) (machine : Machine) (tree : FileTree)
    (config : Config) : Logged (Whitelist × Nat) := do
  let listed ← Logged.ofExcept (listedNames tree request.whitelist)
  let (used, count) ←
    Content.scan machine request.jobs tree config.content config.exclude config.limits
  let whitelist := (config.whitelist.union listed).union used
  Logged.report [.whitelistSize whitelist.size]
  return (whitelist, count)

def readInput (request : PurgeRequest) (tree : FileTree) : Except Error Text :=
  match tree.readText request.input with
  | .ok css => .ok css
  | .error .notFound => .error (.inputNotFound request.input)
  | .error fault => .error (.unreadable request.input fault)

def reportOn (request : PurgeRequest) (clock : Clock) (sheet : Stylesheet)
    (whitelist : Whitelist) (css output : Text) : Report :=
  ((Report.ofPurge clock.now sheet whitelist (Text.byteSize css) output).withPaths
    request.input.text request.output.text).withProcessingTime clock.elapsedMillis

def outcome (request : PurgeRequest) (machine : Machine) (clock : Clock) (tree : FileTree) :
    Logged Outcome := do
  match request.inconsistency? with
  | some cause => Logged.fail (.inconsistent cause)
  | none =>
      let config ← Logged.ofExcept (request.settings tree)
      let (whitelist, count) ← request.gatherWhitelist machine tree config
      let css ← Logged.ofExcept (request.readInput tree)
      let sheet := Stylesheet.parse css
      let output := sheet.purge whitelist config.keepBanner
      let report := request.reportOn clock sheet whitelist css output
      Logged.report (Stylesheet.parseLog css ++ sheet.purgeLog whitelist)
      Logged.report [.keptRules report.statistics.rulesRetained report.statistics.rulesTotal
        report.statistics.inputSize report.statistics.outputSize]
      return ⟨output, report, whitelist, count⟩

end PurgeRequest

def ClassesRequest.outcome (request : ClassesRequest) (machine : Machine) (tree : FileTree) :
    Logged Whitelist := do
  match request.inconsistency? with
  | some cause => Logged.fail (.inconsistent cause)
  | none =>
      let paths ← Content.discover tree request.html request.exclude .default
      Content.scanFiles machine request.jobs tree paths

/-- The purged form of the text that is passed through. The text is looked at
before the whitelist file. -/
def PipeRequest.outcome (request : PipeRequest) (tree : FileTree) (input : Text.Bytes) :
    Logged Text := do
  match Text.decode input with
  | .error fault => Logged.fail (.unreadableInput fault)
  | .ok css =>
      let listed ← Logged.ofExcept (PurgeRequest.listedNames tree request.whitelist)
      let whitelist := (OrderedSet.ofList request.classes).union listed
      let sheet := Stylesheet.parse css
      Logged.report (Stylesheet.parseLog css ++ sheet.purgeLog whitelist)
      return sheet.purge whitelist (!request.noBanner)

end StylePurge
