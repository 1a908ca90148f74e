import StylePurge.Config.Yaml
import StylePurge.Error

/-!
Configurations kept in files. The ending of the name tells the format.
-/

namespace StylePurge.Config

inductive Format where
  | json
  | yaml
  deriving DecidableEq, Repr

def format? (path : Path) : Option Format :=
  match path.extension? with
  | some ['y', 'a', 'm', 'l'] | some ['y', 'm', 'l'] => some .yaml
  | some ['j', 's', 'o', 'n'] => some .json
  | _ => none

def read (format : Format) (content : Text) : Except Error Config :=
  match format with
  | .json => (readJson? content).elim (.error .invalidJson) .ok
  | .yaml => (readYaml? content).elim (.error .invalidYaml) .ok

/-- A name with another ending is refused before the file is looked at. -/
def load (tree : FileTree) (path : Path) : Except Error Config :=
  match format? path with
  | none => .error (.unknownConfigFormat path)
  | some format =>
      match tree.readText path with
      | .error fault => .error (.unreadableConfig path fault)
      | .ok content => read format content

end StylePurge.Config
