import StylePurge.Text.Blank

/-!
Comments of a stylesheet. One pass over the characters removes every comment
and keeps the inside of the first one, trimmed, as the banner. A comment opens
at a slash followed by a star and closes at the next star followed by a slash;
an unclosed comment reaches to the end of the text.
-/

namespace StylePurge.Comment

/-- Where the scan stands. After a slash in plain text a star opens a comment;
after a star inside a comment a slash closes it. -/
inductive Mode where
  | plain
  | slash
  | inside
  | star
  deriving DecidableEq, Repr

/-- Both texts are kept in reverse. `capturing` says that the current comment
is the one whose inside becomes the banner. -/
structure Scan where
  mode : Mode
  kept : Text
  banner : Text
  closedOnce : Bool
  capturing : Bool
  deriving DecidableEq, Repr

def Scan.start : Scan := ⟨.plain, [], [], false, false⟩

def Scan.capture (scan : Scan) (reversed : Text) : Text :=
  if scan.capturing then reversed ++ scan.banner else scan.banner

/-- After a comment the last kept character decides how to go on: a slash left
in front of the comment may open another one together with the text behind it. -/
def modeAfterComment : Text → Mode
  | '/' :: _ => .slash
  | _ => .plain

def Scan.step (scan : Scan) (character : Char) : Scan :=
  match scan.mode with
  | .plain =>
      { scan with
        mode := if character = '/' then .slash else .plain
        kept := character :: scan.kept }
  | .slash =>
      if character = '*' then
        { scan with
          mode := .inside
          kept := scan.kept.tail
          capturing := !scan.closedOnce }
      else
        { scan with
          mode := if character = '/' then .slash else .plain
          kept := character :: scan.kept }
  | .inside =>
      if character = '*' then { scan with mode := .star }
      else { scan with banner := scan.capture [character] }
  | .star =>
      if character = '/' then
        { scan with
          mode := modeAfterComment scan.kept
          closedOnce := true
          capturing := false }
      else if character = '*' then { scan with banner := scan.capture ['*'] }
      else { scan with mode := .inside, banner := scan.capture [character, '*'] }

def Scan.isOpen (scan : Scan) : Bool := scan.mode == .inside || scan.mode == .star

/-- The text without its comments, and the trimmed inside of the first comment,
which is empty when there is none or when it is never closed. -/
structure Filtered where
  clean : Text
  banner : Text
  deriving DecidableEq, Repr

def Scan.finish (scan : Scan) : Filtered :=
  { clean := scan.kept.reverse
    banner :=
      if scan.isOpen && scan.capturing then []
      else Text.trim scan.banner.reverse }

def scan (text : Text) : Scan := text.foldl Scan.step Scan.start

def filter (text : Text) : Filtered := (scan text).finish

def strip (text : Text) : Text := (filter text).clean

end StylePurge.Comment
