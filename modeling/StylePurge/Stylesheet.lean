import StylePurge.Log
import StylePurge.Splitter
import StylePurge.Whitelist

/-!
A stylesheet as rules and a banner: reading it from text, keeping the rules
that a whitelist admits, and writing rules back as text.
-/

namespace StylePurge

structure Stylesheet where
  rules : List Rule
  banner : Text
  deriving DecidableEq, Repr

namespace Stylesheet

/-- The comments go first, then the rest is split into rules. -/
def parse (css : Text) : Stylesheet :=
  let filtered := Comment.filter css
  ⟨Splitter.rules filtered.clean, filtered.banner⟩

def parseLog (css : Text) : Log :=
  let filtered := Comment.filter css
  let split := Splitter.split filtered.clean
  (if split.leftover.isEmpty then []
    else [.unterminated (Text.byteSize split.leftover)]) ++
    [.parsed split.rules.length (Text.byteSize css) (!filtered.banner.isEmpty)]

def keptRules (sheet : Stylesheet) (whitelist : Whitelist) : List Rule :=
  sheet.rules.filter (Rule.isKeptBy whitelist)

/-- A banner that is not empty is written first, as a comment and a space. -/
def bannerText (banner : Text) : Text :=
  if banner.isEmpty then [] else ['/', '*', ' '] ++ banner ++ [' ', '*', '/', ' ']

/-- Every rule is followed by a line feed. -/
def serialize (rules : List Rule) (banner : Text) : Text :=
  bannerText banner ++ rules.flatMap fun rule => rule.text ++ ['\n']

def purge (sheet : Stylesheet) (whitelist : Whitelist) (keepBanner : Bool) : Text :=
  serialize (sheet.keptRules whitelist) (if keepBanner then sheet.banner else [])

def purgeLog (sheet : Stylesheet) (whitelist : Whitelist) : Log :=
  [.retained (sheet.keptRules whitelist).length sheet.rules.length]

end Stylesheet

end StylePurge
