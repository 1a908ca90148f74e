import StylePurge.Text

/-!
The two notions of blank: the five ASCII characters that separate rules of a
stylesheet, and the Unicode property White_Space, by which banners are trimmed
and names are separated.
-/

namespace StylePurge.Text

/-- Space, tab, line feed, form feed and carriage return. The vertical tab is
not among them. -/
def isLayout (character : Char) : Bool :=
  character == ' ' || character == '\t' || character == '\n' || character == '\x0c' ||
    character == '\r'

/-- The code points with the Unicode property White_Space, as closed ranges. -/
def blankRanges : List (Nat × Nat) :=
  [(0x09, 0x0D), (0x20, 0x20), (0x85, 0x85), (0xA0, 0xA0), (0x1680, 0x1680),
    (0x2000, 0x200A), (0x2028, 0x2029), (0x202F, 0x202F), (0x205F, 0x205F), (0x3000, 0x3000)]

def inRanges (ranges : List (Nat × Nat)) (character : Char) : Bool :=
  ranges.any fun range => range.1 ≤ character.toNat && character.toNat ≤ range.2

def isBlank (character : Char) : Bool := inRanges blankRanges character

theorem is_blank_of_layout (character : Char) (layout : isLayout character = true) :
    isBlank character = true := by
  simp only [isLayout, Bool.or_eq_true, beq_iff_eq] at layout
  rcases layout with (((rfl | rfl) | rfl) | rfl) | rfl <;> decide

def trim (text : Text) : Text := trimBy isBlank text

def words (text : Text) : List Text := wordsBy isBlank text

end StylePurge.Text
