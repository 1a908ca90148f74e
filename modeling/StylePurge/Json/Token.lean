import StylePurge.Json.Value

/-!
The words of a JSON document. Blank space between words is dropped, so two
layouts of one document have the same words.
-/

namespace StylePurge.Json

inductive Token where
  | openArray
  | closeArray
  | openObject
  | closeObject
  | comma
  | colon
  | scalar (scalar : Scalar)
  deriving DecidableEq, Repr

def isSpace (character : Char) : Bool :=
  character == ' ' || character == '\t' || character == '\n' || character == '\r'

/-- A string literal is a row of characters and of halves of surrogate pairs. -/
inductive Piece where
  | character (character : Char)
  | surrogate (unit : Nat)
  deriving DecidableEq, Repr

def isHighSurrogate (unit : Nat) : Bool := 0xD800 ≤ unit && unit ≤ 0xDBFF

def isLowSurrogate (unit : Nat) : Bool := 0xDC00 ≤ unit && unit ≤ 0xDFFF

def pieceOfUnit (unit : Nat) : Piece :=
  if isHighSurrogate unit || isLowSurrogate unit then .surrogate unit
  else .character (Char.ofNat unit)

def joinSurrogates (high low : Nat) : Char :=
  Char.ofNat (0x10000 + (high - 0xD800) * 0x400 + (low - 0xDC00))

/-- The text of a literal, if every surrogate has its other half. -/
def assemble : List Piece → Literal
  | [] => some []
  | .character character :: rest => (assemble rest).map (character :: ·)
  | .surrogate high :: .surrogate low :: rest =>
      if isHighSurrogate high && isLowSurrogate low then
        (assemble rest).map (joinSurrogates high low :: ·)
      else none
  | .surrogate _ :: _ => none

def escaped? : Char → Option Char
  | '"' => some '"'
  | '\\' => some '\\'
  | '/' => some '/'
  | 'b' => some '\x08'
  | 'f' => some '\x0c'
  | 'n' => some '\n'
  | 'r' => some '\r'
  | 't' => some '\t'
  | _ => none

/-- Reads up to the closing quote. Control characters have to be escaped. -/
def readPieces : Text → Option (List Piece × Text)
  | [] => none
  | '"' :: rest => some ([], rest)
  | '\\' :: 'u' :: first :: second :: third :: fourth :: rest =>
      match Text.toNat? 16 [first, second, third, fourth], readPieces rest with
      | some unit, some (pieces, behind) => some (pieceOfUnit unit :: pieces, behind)
      | _, _ => none
  | '\\' :: letter :: rest =>
      match escaped? letter, readPieces rest with
      | some character, some (pieces, behind) => some (.character character :: pieces, behind)
      | _, _ => none
  | character :: rest =>
      if character < ' ' then none
      else (readPieces rest).map fun (pieces, behind) => (.character character :: pieces, behind)

def isBareCharacter (character : Char) : Bool :=
  character.isAlphanum || character == '+' || character == '-' || character == '.'

def isDigits (text : Text) : Bool := !text.isEmpty && text.all Text.isDigit

def isExponent : Text → Bool
  | [] => true
  | mark :: rest =>
      (mark == 'e' || mark == 'E') &&
        match rest with
        | '+' :: digits => isDigits digits
        | '-' :: digits => isDigits digits
        | digits => isDigits digits

def isFraction : Text → Bool
  | '.' :: rest =>
      isDigits (rest.takeWhile Text.isDigit) && isExponent (rest.dropWhile Text.isDigit)
  | text => isExponent text

/-- The whole part is a single zero or starts with another digit. -/
def isUnsigned : Text → Bool
  | '0' :: rest => isFraction rest
  | digit :: rest => Text.isDigit digit && isFraction (rest.dropWhile Text.isDigit)
  | [] => false

def isNumber : Text → Bool
  | '-' :: rest => isUnsigned rest
  | text => isUnsigned text

def bare? (word : Text) : Option Scalar :=
  if word = ['n', 'u', 'l', 'l'] then some .null
  else if word = ['t', 'r', 'u', 'e'] then some (.bool true)
  else if word = ['f', 'a', 'l', 's', 'e'] then some (.bool false)
  else if isNumber word then some (.number word)
  else none

def punctuation? : Char → Option Token
  | '[' => some .openArray
  | ']' => some .closeArray
  | '\x7b' => some .openObject
  | '\x7d' => some .closeObject
  | ',' => some .comma
  | ':' => some .colon
  | _ => none

def nextToken? (character : Char) (rest : Text) : Option (Token × Text) :=
  match punctuation? character with
  | some token => some (token, rest)
  | none =>
      if character = '"' then
        (readPieces rest).map fun (pieces, behind) => (.scalar (.string (assemble pieces)), behind)
      else
        (bare? (character :: rest.takeWhile isBareCharacter)).map fun atom =>
          (.scalar atom, rest.dropWhile isBareCharacter)

theorem read_pieces_length {text behind : Text} {pieces : List Piece}
    (found : readPieces text = some (pieces, behind)) : behind.length < text.length := by
  fun_induction readPieces text generalizing pieces behind with
  | case1 => simp at found
  | case2 rest =>
      simp only [Option.some.injEq, Prod.mk.injEq] at found
      simp [← found.2]
  | case3 first second third fourth rest unit pieces' behind' inner number induction =>
      simp only [Option.some.injEq, Prod.mk.injEq] at found
      have shorter := induction inner
      rw [← found.2]
      simp only [List.length_cons]
      omega
  | case4 => simp at found
  | case5 letter rest _ character pieces' behind' inner _ induction =>
      simp only [Option.some.injEq, Prod.mk.injEq] at found
      have shorter := induction inner
      rw [← found.2]
      simp only [List.length_cons]
      omega
  | case6 => simp at found
  | case7 => simp at found
  | case8 character rest _ _ _ _ induction =>
      cases inner : readPieces rest with
      | none => simp [inner] at found
      | some pair =>
          obtain ⟨pieces', behind'⟩ := pair
          simp only [inner, Option.map_some, Option.some.injEq, Prod.mk.injEq] at found
          have shorter := induction inner
          rw [← found.2]
          simp only [List.length_cons]
          omega

theorem next_token_length {character : Char} {rest behind : Text} {token : Token}
    (found : nextToken? character rest = some (token, behind)) :
    behind.length ≤ rest.length := by
  unfold nextToken? at found
  split at found
  · simp only [Option.some.injEq, Prod.mk.injEq] at found
    simp [found.2]
  · split at found
    · cases inner : readPieces rest with
      | none => simp [inner] at found
      | some pair =>
          have shorter := @read_pieces_length rest pair.2 pair.1 inner
          simp only [inner, Option.map_some, Option.some.injEq, Prod.mk.injEq] at found
          rw [← found.2]
          omega
    · cases inner : bare? (character :: rest.takeWhile isBareCharacter) with
      | none => simp [inner] at found
      | some scalar =>
          simp only [inner, Option.map_some, Option.some.injEq, Prod.mk.injEq] at found
          rw [← found.2]
          exact (List.dropWhile_suffix isBareCharacter).length_le

def tokens? (text : Text) : Option (List Token) :=
  match text with
  | [] => some []
  | character :: rest =>
      if isSpace character then tokens? rest
      else
        match found : nextToken? character rest with
        | some (token, behind) =>
            have : behind.length ≤ rest.length := next_token_length found
            (tokens? behind).map (token :: ·)
        | none => none
termination_by text.length

end StylePurge.Json
