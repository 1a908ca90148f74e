import StylePurge.Text

/-!
Why a command line is not understood. Being asked for help or for the version
also ends the reading of a command line.
-/

namespace StylePurge.CommandLine

inductive UsageFault where
  | helpWanted
  | versionWanted
  | noCommand
  | unknownCommand
  | unknownArgument
  /-- An option lacks its word, or the word is empty where it cannot be. -/
  | unusableWord
  | notACount
  | missingOption
  | repeatedOption
  | surplusWord
  deriving DecidableEq, Repr

namespace UsageFault

/-- Asking for help or for the version is no failure. -/
def isFailure : UsageFault → Bool
  | helpWanted | versionWanted => false
  | _ => true

def message : UsageFault → String
  | helpWanted => "usage: css-purge-cli <purge|classes|pipe|help> [options]"
  | versionWanted => "css-purge-cli 0.1.0"
  | noCommand => "a command is required"
  | unknownCommand => "unknown command"
  | unknownArgument => "unexpected argument"
  | unusableWord => "an option needs a value"
  | notACount => "not a number of jobs"
  | missingOption => "a required option is missing"
  | repeatedOption => "an option cannot be given twice"
  | surplusWord => "a flag takes no value"

end UsageFault

end StylePurge.CommandLine
