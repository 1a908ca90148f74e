import StylePurge.CommandLine
import StylePurge.Delivery
import StylePurge.Report.Percent

/-!
A run of the program as a value: from the words of the command line, the text
passed in and the tree to what is shown, the exit code and the tree that is left.
-/

namespace StylePurge.CommandLine

structure Finish where
  code : Nat
  output : Text
  complaint : Text
  deriving DecidableEq, Repr

/-- `log` holds the messages that are to be shown. -/
structure Run where
  finish : Finish
  log : Log
  tree : FileTree

def isVerbose : Request → Bool
  | .purge request => request.verbose
  | .classes request => request.verbose
  | .pipe _ => false

def shownLog (request : Request) (log : Log) : Log :=
  log.filter fun message => isVerbose request || message.level = .warn

def line (string : String) : Text := Text.ofString string ++ ['\n']

namespace Finish

def success (output : Text) : Finish := ⟨0, output, []⟩

def failure (error : Error) : Finish := ⟨1, [], line s!"Error: {error.message}"⟩

def indent (width : Nat) (message : String) : Text :=
  (Text.ofString message).flatMap fun character =>
    if character = '\n' then '\n' :: List.replicate width ' ' else [character]

/-- A failure that is told with what was to be done and the chain of causes. The
causes are numbered if there is more than one. -/
def failureIn (task : String) (error : Error) : Finish :=
  let causes : Text :=
    match error.source? with
    | none => Text.ofString "    " ++ indent 4 error.message ++ ['\n']
    | some source =>
        Text.ofString "    0: " ++ indent 7 error.message ++ ['\n'] ++
          Text.ofString "    1: " ++ indent 7 source ++ ['\n']
  ⟨1, [], line s!"Error: {task}" ++ ['\n'] ++ line "Caused by:" ++ causes⟩

def ofUsage (fault : UsageFault) : Finish :=
  if fault.isFailure then ⟨2, [], line s!"error: {fault.message}"⟩
  else success (line fault.message)

def ofPurge (request : PurgeRequest) : Except Error Outcome → Finish
  | .error error => failure error
  | .ok outcome =>
      let statistics := outcome.report.statistics
      if request.dryRun then success outcome.css
      else
        success <|
          line "Purge successful!" ++
            line s!"  - Scanned {outcome.filesScanned} HTML files" ++
            line s!"  - Whitelisted {outcome.whitelist.size} classes" ++
            line (s!"  - Kept {statistics.rulesRetained} of {statistics.rulesTotal} rules " ++
              s!"({Report.percentText statistics}% smaller)")

/-- The names in ascending order, or as an array in the order of discovery. -/
def ofClasses (request : ClassesRequest) : Except Error Whitelist → Finish
  | .error error => failureIn "Failed to collect classes" error
  | .ok whitelist =>
      success (if request.asJson then whitelist.toJson.pretty ++ ['\n'] else whitelist.toLines)

def ofPipe : Except Error Text → Finish
  | .error error => failureIn "Failed to purge stdin" error
  | .ok css => success css

end Finish

def perform (request : Request) (input : Text.Bytes) (machine : Machine) (clock : Clock)
    (tree : FileTree) : Run :=
  match request with
  | .purge purge =>
      let delivery := purge.run machine clock tree
      ⟨.ofPurge purge delivery.outcome.result, shownLog request delivery.outcome.log, delivery.tree⟩
  | .classes classes =>
      let outcome := classes.outcome machine tree
      ⟨.ofClasses classes outcome.result, shownLog request outcome.log, tree⟩
  | .pipe pipe =>
      let outcome := pipe.outcome tree input
      ⟨.ofPipe outcome.result, shownLog request outcome.log, tree⟩

def run (words : List Text) (input : Text.Bytes) (machine : Machine) (clock : Clock)
    (tree : FileTree) : Run :=
  match read words with
  | .error fault => ⟨.ofUsage fault, [], tree⟩
  | .ok request => perform request input machine clock tree

end StylePurge.CommandLine
