/-!
Text as a list of characters. Scanners recurse on it directly; sizes that are
reported or compared with limits are counted in UTF-8 bytes.
-/

namespace StylePurge

/-- Stylesheet text, markup, class names and path texts are all plain character lists. -/
abbrev Text := List Char

namespace Text

def ofString (string : String) : Text := string.toList

def toString (text : Text) : String := String.ofList text

def byteSize : Text → Nat
  | [] => 0
  | character :: rest => character.utf8Size + byteSize rest

theorem byte_size_nil : byteSize [] = 0 := rfl

theorem byte_size_append (left right : Text) :
    byteSize (left ++ right) = byteSize left + byteSize right := by
  induction left with
  | nil => rw [List.nil_append, byte_size_nil, Nat.zero_add]
  | cons character rest induction =>
      rw [List.cons_append, byteSize, byteSize, induction, Nat.add_assoc]

/-- Order by code points, which is also the order of the UTF-8 forms. -/
def precedes : Text → Text → Bool
  | [], _ => true
  | _ :: _, [] => false
  | left :: lefts, right :: rights =>
      if left = right then precedes lefts rights else left.toNat < right.toNat

def startsWith (text pattern : Text) : Bool := pattern.isPrefixOf text

def containsText (pattern : Text) : Text → Bool
  | [] => pattern.isEmpty
  | character :: rest =>
      startsWith (character :: rest) pattern || containsText pattern rest

/-- The pieces between separators: one more than there are separators. -/
def splitAt (isSeparator : Char → Bool) : Text → List Text
  | [] => [[]]
  | character :: rest =>
      if isSeparator character then [] :: splitAt isSeparator rest
      else
        match splitAt isSeparator rest with
        | [] => [[character]]
        | piece :: pieces => (character :: piece) :: pieces

def wordsBy (isSeparator : Char → Bool) (text : Text) : List Text :=
  (splitAt isSeparator text).filter fun piece => !piece.isEmpty

def trimBy (isBlank : Char → Bool) (text : Text) : Text :=
  ((text.dropWhile isBlank).reverse.dropWhile isBlank).reverse

/-- Lines end at a line feed; a carriage return right before it belongs to the
ending. A final line without line feed keeps its carriage return. -/
def lines (text : Text) : List Text :=
  let dropReturn (line : Text) : Text :=
    match line.reverse with
    | '\r' :: reversed => reversed.reverse
    | _ => line
  match (splitAt (· == '\n') text).reverse with
  | [] => []
  | last :: earlier =>
      earlier.reverse.map dropReturn ++ (if last.isEmpty then [] else [last])

def joinWith (separator : Text) : List Text → Text
  | [] => []
  | [piece] => piece
  | piece :: pieces => piece ++ separator ++ joinWith separator pieces

end Text

end StylePurge
