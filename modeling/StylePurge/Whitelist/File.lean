import StylePurge.Error
import StylePurge.Json.Decoder
import StylePurge.Json.Printer
import StylePurge.Json.Reader
import StylePurge.Whitelist

/-!
Whitelists kept in files: an array of names as JSON, or plain lines of names.
What is written for a whitelist in either form can be read again.
-/

namespace StylePurge.Whitelist

def toJson (whitelist : Whitelist) : Json := .ofTexts whitelist.toList

/-- The first of equal names counts. -/
def ofJson? (document : Json) : Option Whitelist :=
  (Json.list? Json.text? document).map OrderedSet.ofList

def readJson? (content : Text) : Option Whitelist := (Json.read? content).bind ofJson?

def toLines (whitelist : Whitelist) : Text :=
  whitelist.sorted.flatMap fun name => name ++ ['\n']

def isJsonPath (path : Path) : Bool := path.extension? == some ['j', 's', 'o', 'n']

def load (tree : FileTree) (path : Path) : Except Error Whitelist :=
  match tree.readText path with
  | .error .notFound => .error (.inputNotFound path)
  | .error fault => .error (.file fault)
  | .ok content =>
      if isJsonPath path then (readJson? content).elim (.error .invalidJson) .ok
      else .ok (ofLines content)

end StylePurge.Whitelist
