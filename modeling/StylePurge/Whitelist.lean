import StylePurge.Markup

/-!
The class names known to be in use, in the order in which they became known.
-/

namespace StylePurge

abbrev Whitelist := OrderedSet Text

namespace Whitelist

def addMarkup (whitelist : Whitelist) (markup : Text) : Whitelist :=
  whitelist.union (Markup.classes markup)

def sorted (whitelist : Whitelist) : List Text := whitelist.toList.mergeSort Text.precedes

def sameNames (left right : Whitelist) : Bool := left.isSubset right && right.isSubset left

/-- Names from a plain text file: lines that start with a number sign after
trimming are remarks, the others hold names separated by blanks. -/
def ofLines (content : Text) : Whitelist :=
  let named := (content.lines.map Text.trim).filter fun line => line.head? != some '#'
  .ofList (named.flatMap Text.words)

end Whitelist

end StylePurge
