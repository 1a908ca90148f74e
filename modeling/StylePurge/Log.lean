import StylePurge.Text

/-!
What a run reports while it works. Messages are values; how they are shown is
decided where they are shown.
-/

namespace StylePurge

inductive LogLevel where
  | debug
  | info
  | warn
  deriving DecidableEq, Repr

inductive LogMessage where
  /-- Text behind the last rule that never became a rule, in bytes. -/
  | unterminated (bytes : Nat)
  | parsed (rules bytes : Nat) (hasBanner : Bool)
  | retained (kept total : Nat)
  /-- A content file was left out, with the reason as it is shown. -/
  | skippedFile (reason : String)
  | skippedFiles (count : Nat)
  | foundFiles (count bytes : Nat)
  | collected (classes files : Nat)
  | whitelistSize (classes : Nat)
  | keptRules (kept total inputBytes outputBytes : Nat)
  | nothingWritten
  deriving DecidableEq, Repr

abbrev Log := List LogMessage

namespace LogMessage

def level : LogMessage → LogLevel
  | skippedFile _ | skippedFiles _ => .warn
  | foundFiles _ _ | whitelistSize _ | keptRules _ _ _ _ => .info
  | unterminated _ | parsed _ _ _ | retained _ _ | collected _ _ | nothingWritten => .debug

def text : LogMessage → String
  | unterminated bytes => s!"dropping {bytes} bytes of unterminated trailing css"
  | parsed rules bytes hasBanner =>
      let banner := if hasBanner then "kept" else "none"
      s!"parsed {rules} rules from {bytes} bytes of css (banner: {banner})"
  | retained kept total => s!"retained {kept} of {total} rules"
  | skippedFile reason => s!"Skipping file - {reason}"
  | skippedFiles count => s!"Skipped {count} files due to security constraints"
  | foundFiles count bytes => s!"Found {count} HTML files to scan ({bytes} bytes)"
  | collected classes files => s!"collected {classes} classes from {files} files"
  | whitelistSize classes => s!"Whitelist holds {classes} classes"
  | keptRules kept total inputBytes outputBytes =>
      s!"Kept {kept} of {total} rules ({inputBytes} -> {outputBytes} bytes)"
  | nothingWritten => "dry run, nothing written"

end LogMessage

end StylePurge
