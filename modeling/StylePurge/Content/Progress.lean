import StylePurge.Content

/-!
Scanning many files at once. The scans may end in any order; each result is kept
at the place of its file in the list, so that the outcome can be put together in
list order when all have ended. Every scan is announced once when it ends.
-/

namespace StylePurge.Content

/-- `results` has a place for every file of the list, and `announced` holds the
files whose scan has ended, in the order in which the scans ended. -/
structure Progress where
  results : List (Option (Except Error (OrderedSet Text)))
  announced : List Path

namespace Progress

def start (paths : List Path) : Progress := ⟨paths.map fun _ => none, []⟩

/-- The scan of the file at a place ends. Places behind the list do not exist. -/
def finish (tree : FileTree) (paths : List Path) (progress : Progress) (place : Nat) : Progress :=
  match paths[place]? with
  | none => progress
  | some path =>
      { results := progress.results.set place (some (fileClasses tree path))
        announced := progress.announced ++ [path] }

def run (tree : FileTree) (paths : List Path) (order : List Nat) : Progress :=
  order.foldl (finish tree paths) (start paths)

def whitelist? (progress : Progress) : Option (Except Error Whitelist) :=
  (progress.results.mapM id).map fun results => (results.mapM id).map merge

end Progress

end StylePurge.Content
