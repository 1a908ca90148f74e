import StylePurge.FileTree

/-!
What the machine decides. A call that the tree allows may still be refused, for want of
space or of permission or because a disk is broken, and a write may break off half way.
Nothing that is known of a run depends on when that happens.
-/

namespace StylePurge

/-- What a change asks of the machine. An open file goes by its number. -/
inductive Call where
  | makeDirectory (path : Path)
  | create (path : Path)
  | write (number : Nat) (content : Text.Bytes)
  | secure (number : Nat)
  | rename (source destination : Path)
  deriving DecidableEq, Repr

structure Machine where
  /-- Why a call is refused, if it is. -/
  refusal? : Call → FileTree → Option Text
  /-- How many bytes get through before a write is refused. -/
  progress : Call → FileTree → Nat
  /-- Whether two names of a link to the same path are names of one link. -/
  isOneLink : FileTree → Location → Location → Bool
  /-- Why that many workers cannot be started, if they cannot. -/
  workersRefusal? : Nat → Option Text

/-- A machine with space, permission and workers enough. -/
def Machine.willing : Machine := ⟨fun _ _ => none, fun _ _ => 0, fun _ _ _ => false, fun _ => none⟩

end StylePurge
