import StylePurge.Text

/-!
Natural numbers as text, in decimal and in other bases.
-/

namespace StylePurge.Text

def isDigit (character : Char) : Bool := '0' ≤ character && character ≤ '9'

def digitValue? (character : Char) : Option Nat :=
  if isDigit character then some (character.toNat - '0'.toNat)
  else if 'a' ≤ character && character ≤ 'f' then some (character.toNat - 'a'.toNat + 10)
  else if 'A' ≤ character && character ≤ 'F' then some (character.toNat - 'A'.toNat + 10)
  else none

def ofNat (number : Nat) : Text := Nat.toDigits 10 number

/-- Reads a run of digits from the left; none on any other character. -/
def readDigits (base : Nat) : Nat → Text → Option Nat
  | value, [] => some value
  | value, character :: rest =>
      match digitValue? character with
      | some digit => if digit < base then readDigits base (value * base + digit) rest else none
      | none => none

def toNat? (base : Nat) (text : Text) : Option Nat :=
  if text.isEmpty then none else readDigits base 0 text

/-- Counts are kept in words of sixty-four bits. -/
def wordLimit : Nat := Nat.pow 2 64

def word? (number : Nat) : Option Nat := if number < wordLimit then some number else none

end StylePurge.Text
