import StylePurge.Text.Blank
import StylePurge.Text.WordRanges

/-!
Word characters, and the characters a class name is made of.
-/

namespace StylePurge.Text

def isAsciiWord (character : Char) : Bool := character.isAlphanum || character == '_'

def isWord (character : Char) : Bool :=
  isAsciiWord character || inRanges wordRanges character

/-- A class name is a run of word characters and hyphens. -/
def isNameCharacter (character : Char) : Bool := isWord character || character == '-'

end StylePurge.Text
