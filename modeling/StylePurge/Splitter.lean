import StylePurge.Rule

/-!
Splits a stylesheet into its top-level rules. A rule starts at the first
character that is not layout and ends at the brace that brings the depth back
to zero; a statement that starts with an at-sign and stands outside any block
also ends at a semicolon. Braces and semicolons inside comments do not count.
Malformed text costs only the pending rule: a closing brace at depth zero
discards it, and text whose block never closes is left over.
-/

namespace StylePurge.Splitter

open Comment (Mode)

/-- The pending text and the rules found so far are kept in reverse. The
pending text is empty exactly while no rule has started. -/
structure Scan where
  mode : Mode
  depth : Nat
  pending : Text
  rules : List Rule
  deriving DecidableEq, Repr

def Scan.start : Scan := ⟨.plain, 0, [], []⟩

/-- Layout does not start a rule. -/
def push (character : Char) (pending : Text) : Text :=
  if pending.isEmpty && Text.isLayout character then [] else character :: pending

def isStatement (pending : Text) : Bool := pending.getLast? == some '@'

/-- The pending text, with its last character, becomes a rule. -/
def Scan.emit (scan : Scan) (character : Char) : Scan :=
  { mode := .plain
    depth := 0
    pending := []
    rules := ⟨(push character scan.pending).reverse⟩ :: scan.rules }

def Scan.plainStep (scan : Scan) (character : Char) : Scan :=
  let extended := { scan with mode := .plain, pending := push character scan.pending }
  if character = '/' then { extended with mode := .slash }
  else if character = '{' then { extended with depth := scan.depth + 1 }
  else if character = '}' then
    match scan.depth with
    | 0 => { extended with pending := [] }
    | 1 => scan.emit character
    | outer + 2 => { extended with depth := outer + 1 }
  else if character = ';' && scan.depth == 0 && isStatement extended.pending then
    scan.emit character
  else extended

def Scan.step (scan : Scan) (character : Char) : Scan :=
  match scan.mode with
  | .plain => scan.plainStep character
  | .slash =>
      if character = '*' then
        { scan with mode := .inside, pending := character :: scan.pending }
      else scan.plainStep character
  | .inside =>
      { scan with
        mode := if character = '*' then .star else .inside
        pending := character :: scan.pending }
  | .star =>
      { scan with
        mode := if character = '/' then .plain else if character = '*' then .star else .inside
        pending := character :: scan.pending }

structure Split where
  rules : List Rule
  leftover : Text
  deriving DecidableEq, Repr

def Scan.finish (scan : Scan) : Split := ⟨scan.rules.reverse, scan.pending.reverse⟩

def scan (css : Text) : Scan := css.foldl Scan.step Scan.start

def split (css : Text) : Split := (scan css).finish

def rules (css : Text) : List Rule := (split css).rules

end StylePurge.Splitter
