import StylePurge.Text.Blank
import StylePurge.Text.Decimal

/-!
Points in time as text in the manner of RFC 3339. Reading is lenient: fields may
be shorter than two digits, blanks may stand before a field, a space may stand
for the letter between date and time, and the year may have a sign.
-/

namespace StylePurge

namespace Timestamp

def skipBlanks (text : Text) : Text := text.dropWhile Text.isBlank

def readNumber (most : Nat) (text : Text) : Option (Nat × Text) :=
  let digits := (text.take most).takeWhile Text.isDigit
  (Text.toNat? 10 digits).map fun number => (number, text.drop digits.length)

def readField (low high : Nat) (text : Text) : Option (Nat × Text) := do
  let (number, rest) ← readNumber 2 (skipBlanks text)
  if low ≤ number && number ≤ high then some (number, rest) else none

def readMark (mark : Char) (text : Text) : Option Text :=
  match skipBlanks text with
  | character :: rest => if character = mark then some rest else none
  | [] => none

/-- A year without sign has at most four digits. -/
def readYear (text : Text) : Option (Int × Text) :=
  match skipBlanks text with
  | '-' :: rest => (readNumber rest.length rest).map fun (year, behind) => (-(year : Int), behind)
  | '+' :: rest => (readNumber rest.length rest).map fun (year, behind) => ((year : Int), behind)
  | rest => (readNumber 4 rest).map fun (year, behind) => ((year : Int), behind)

def isLeapYear (year : Int) : Bool :=
  year % 4 == 0 && (year % 100 != 0 || year % 400 == 0)

def daysInMonth (year : Int) (month : Nat) : Nat :=
  if month = 2 then (if isLeapYear year then 29 else 28)
  else if month = 4 || month = 6 || month = 9 || month = 11 then 30
  else 31

/-- Years that a date can have. -/
def isYear (year : Int) : Bool := -262143 ≤ year && year ≤ 262142

def readDate (text : Text) : Option Text := do
  let (year, rest) ← readYear text
  let (month, rest) ← readField 1 12 (← readMark '-' rest)
  let (day, rest) ← readField 1 31 (← readMark '-' rest)
  if isYear year && day ≤ daysInMonth year month then some rest else none

def readFraction : Text → Option Text
  | '.' :: rest =>
      let behind := rest.dropWhile Text.isDigit
      if behind.length < rest.length then some behind else none
  | text => some text

/-- The second sixty is a leap second. -/
def readTime (text : Text) : Option Text := do
  let (_, rest) ← readField 0 23 text
  let (_, rest) ← readField 0 59 (← readMark ':' rest)
  let (_, rest) ← readField 0 60 (← readMark ':' rest)
  readFraction rest

def readTwo : Text → Option (Nat × Text)
  | first :: second :: rest => (Text.toNat? 10 [first, second]).map fun number => (number, rest)
  | _ => none

/-- Hours and minutes, less than a day in all. -/
def readOffset (text : Text) : Option Text := do
  let (hours, rest) ← readTwo text
  let (minutes, rest) ←
    readTwo (rest.dropWhile fun character => character == ':' || Text.isBlank character)
  if hours < 24 && minutes < 60 then some rest else none

def isUniversal (text : Text) : Bool :=
  (text.take 3).map Char.toUpper == ['U', 'T', 'C']

def readZone (text : Text) : Option Text :=
  if isUniversal text then some (text.drop 3)
  else
    match text with
    | 'Z' :: rest => some rest
    | 'z' :: rest => some rest
    | '+' :: rest => readOffset rest
    | '-' :: rest => readOffset rest
    | '\u2212' :: rest => readOffset rest
    | _ => none

def isDivider (character : Char) : Bool :=
  character == 'T' || character == 't' || character == ' '

def isValid (text : Text) : Bool :=
  match readDate text with
  | some (divider :: rest) =>
      isDivider divider &&
        match (readTime rest).bind fun behind => readZone (skipBlanks behind) with
        | some behind => (skipBlanks behind).isEmpty
        | none => false
  | _ => false

end Timestamp

structure Timestamp where
  text : Text
  valid : Timestamp.isValid text = true
  deriving DecidableEq

namespace Timestamp

def ofText? (text : Text) : Option Timestamp :=
  if valid : isValid text = true then some ⟨text, valid⟩ else none

def epoch : Timestamp :=
  ⟨['1', '9', '7', '0', '-', '0', '1', '-', '0', '1', 'T', '0', '0', ':', '0', '0', ':', '0', '0',
    'Z'], by decide⟩

instance : Inhabited Timestamp := ⟨epoch⟩

end Timestamp

end StylePurge
