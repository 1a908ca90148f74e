import StylePurge.FileTree
import StylePurge.Glob.Pattern
import StylePurge.Log

/-!
Why a run fails. Each cause carries what its message shows; the wording stands
in one place. A run is a result together with what it reported on the way.
-/

namespace StylePurge

inductive Refusal where
  | isLink (path : Path)
  | noMetadata (path : Path) (fault : Fault)
  | tooLarge (path : Path) (size limit : Nat)
  deriving DecidableEq, Repr

inductive Inconsistency where
  | outputIsInput
  | reportIsStylesheet
  | noJobs
  | noSource
  deriving DecidableEq, Repr

inductive Error where
  | inconsistent (cause : Inconsistency)
  | unknownConfigFormat (path : Path)
  | unreadableConfig (path : Path) (fault : Fault)
  | invalidJson
  | invalidYaml
  | pattern (fault : Glob.PatternFault)
  | noFiles
  | noWorkers (count : Nat) (reason : Text)
  | refused (refusal : Refusal)
  | inputNotFound (path : Path)
  | unreadable (path : Path) (fault : Fault)
  | unreadableInput (fault : Text.Utf8Fault)
  | notWritten (path : Path) (fault : Fault)
  /-- An operation on files failed where the path goes without saying. -/
  | file (fault : Fault)
  deriving DecidableEq, Repr

def Path.display (path : Path) : String := Text.toString path.text

def Refusal.message : Refusal → String
  | isLink path => s!"Symbolic link not allowed: {path.display}"
  | noMetadata path fault =>
      "Cannot read file metadata for '" ++ path.display ++ "': " ++ fault.message
  | tooLarge path size limit =>
      "File '" ++ path.display ++ s!"' exceeds maximum size limit ({size} bytes > {limit} bytes)"

def Inconsistency.message : Inconsistency → String
  | outputIsInput => "Input and output stylesheet paths must be different"
  | reportIsStylesheet => "Report path must differ from the stylesheet paths"
  | noJobs => "Number of jobs must be at least 1"
  | noSource =>
      "No whitelist source given: pass --html, --class, --whitelist or --config, " ++
        "or --allow-empty to drop every class rule"

namespace Error

/-- The message of a cause that has a message of its own. -/
def source? : Error → Option String
  | invalidJson => some "invalid JSON document"
  | invalidYaml => some "invalid YAML document"
  | pattern fault => some fault.message
  | file fault => some fault.message
  | _ => none

def message : Error → String
  | inconsistent cause => s!"Invalid input: {cause.message}"
  | unknownConfigFormat path =>
      s!"Configuration error: Unsupported config file format: {path.display}. " ++
        "Use .yaml, .yml, or .json"
  | unreadableConfig path fault =>
      s!"Configuration error: Failed to read config file {path.display}: {fault.message}"
  | invalidJson => "JSON serialization error: invalid JSON document"
  | invalidYaml => "YAML parsing error: invalid YAML document"
  | pattern fault => s!"Pattern error: {fault.message}"
  | noFiles => "No files found matching the provided patterns"
  | noWorkers count reason =>
      s!"Invalid input: Failed to start {count} worker threads: {Text.toString reason}"
  | refused refusal => s!"Security violation: {refusal.message}"
  | inputNotFound path => s!"Input file not found: {path.display}"
  | unreadable path fault => s!"Input error: Failed to read {path.display}: {fault.message}"
  | unreadableInput fault => s!"Input error: Failed to read from stdin: {fault.message}"
  | notWritten path fault => s!"Failed to write output to {path.display}: {fault.message}"
  | file fault => s!"IO error: {fault.message}"

end Error

structure Logged (Value : Type) where
  log : Log
  result : Except Error Value

namespace Logged

def fail {Value : Type} (error : Error) : Logged Value := ⟨[], .error error⟩

def report (log : Log) : Logged Unit := ⟨log, .ok ()⟩

def ofExcept {Value : Type} (result : Except Error Value) : Logged Value := ⟨[], result⟩

def bind {First Second : Type} (first : Logged First) (next : First → Logged Second) :
    Logged Second :=
  match first.result with
  | .ok value => ⟨first.log ++ (next value).log, (next value).result⟩
  | .error error => ⟨first.log, .error error⟩

instance : Monad Logged where
  pure value := ⟨[], .ok value⟩
  bind := bind

theorem result_bind {First Second : Type} (first : Logged First) (next : First → Logged Second) :
    (first >>= next).result = first.result.bind fun value => (next value).result := by
  change (first.bind next).result = _
  unfold bind Except.bind
  cases first.result <;> rfl

end Logged

end StylePurge
