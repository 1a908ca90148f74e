import StylePurge.Selector

/-!
A rule is one top-level unit of a stylesheet, kept verbatim. Its class names
are read off its text.
-/

namespace StylePurge

structure Rule where
  text : Text
  deriving DecidableEq, Repr

namespace Rule

def classes (rule : Rule) : OrderedSet Text := Selector.classes rule.text

/-- A rule whose selector names no class applies whatever the markup holds. -/
def isClassless (rule : Rule) : Bool := rule.classes.toList.isEmpty

/-- A rule is kept when it has no classes or shares one with the whitelist. -/
def isKeptBy (whitelist : OrderedSet Text) (rule : Rule) : Bool :=
  rule.isClassless || rule.classes.toList.any whitelist.contains

end Rule

end StylePurge
