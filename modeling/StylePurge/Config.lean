import StylePurge.OrderedSet
import StylePurge.Text

/-!
What to keep and where to look: class names that are always kept, patterns for
the markup to scan, patterns to leave out, and restrictions on the files read.
-/

namespace StylePurge

/-- Restrictions on content files. Sizes are in bytes. -/
structure Limits where
  maxFileSize : Nat
  allowLinks : Bool
  deriving DecidableEq, Repr

def Limits.default : Limits := ⟨10 * 1024 * 1024, false⟩

structure Config where
  safelist : List Text
  content : List Text
  exclude : List Text
  keepBanner : Bool
  limits : Limits
  deriving DecidableEq, Repr

namespace Config

def default : Config := ⟨[], [], [], true, Limits.default⟩

instance : Inhabited Config := ⟨default⟩

def appendNew (entries additions : List Text) : List Text :=
  additions.foldl (fun list entry => if list.contains entry then list else list ++ [entry]) entries

/-- Puts another configuration on top, usually the command line over a file.
Names and exclusions add up, given content replaces ours, and the banner stays
only if both keep it. Restrictions on files have no command line form and stay. -/
def merge (base other : Config) : Config :=
  { safelist := appendNew base.safelist other.safelist
    content := if other.content.isEmpty then base.content else other.content
    exclude := appendNew base.exclude other.exclude
    keepBanner := base.keepBanner && other.keepBanner
    limits := base.limits }

def whitelist (config : Config) : OrderedSet Text := .ofList config.safelist

end Config

end StylePurge
