import StylePurge.Proofs.GlobSearch
import StylePurge.Proofs.PathSpellings

/-!
How the paths end that a pattern finds. A path that is found ends in a piece that leads
somewhere, unless it is a directory: behind anything else no single dot and no slash is
found. Only a path that is too long to be looked up may end in any way, since the system
has nothing to say about it.
-/

namespace StylePurge

namespace FileTree

/-- The path leads to a directory, or it is too long to be looked up, or it ends in a piece that
leads somewhere. -/
def Ends (tree : FileTree) (path : Path) : Prop :=
  tree.isDirectory path = true ∨ ¬Fits path ∨ path.EndsInStep

/-- Names of entries are names: they are not empty, no single dots and hold no slashes. -/
def ProperNames (tree : FileTree) : Prop :=
  ∀ entry ∈ tree.entries, ∀ name ∈ entry.1, isNothing name = false ∧ '/' ∉ name

variable {tree : FileTree} {path : Path} {front : List Text} {piece : Text}

theorem is_directory_iff :
    tree.isDirectory path = true ↔
      ∃ location, tree.locate .follow path = .ok location ∧
        tree.isDirectoryAt location = true := by
  have found : tree.isDirectory path = true ↔ tree.lookup path = .ok .directory := by
    unfold isDirectory
    split
    · rename_i directory
      exact iff_of_true rfl directory
    · rename_i other
      exact iff_of_false Bool.false_ne_true other
  simp only [found, lookup_eq_ok, isDirectoryAt, beq_iff_eq]

theorem ends_of_pieces (pieces : path.pieces = front ++ [piece])
    (real : isNothing piece = false) : tree.Ends path :=
  .inr (.inr ⟨front, piece, pieces, real⟩)

/-- Where a path that ends in a piece leading nowhere leads to something, that is a directory. -/
theorem directory_of_nothing (pieces : path.pieces = front ++ [piece])
    (nothing : isNothing piece = true) (there : tree.names? path = true) :
    tree.isDirectory path = true := by
  unfold names? at there
  split at there
  · rename_i location located
    obtain ⟨checked, walked⟩ := locate_eq_ok.1 located
    rw [pieces] at walked
    have goesOn : [piece] ≠ [] := List.cons_ne_nil piece []
    obtain ⟨middle, left, reached, later⟩ := walk_parts front [piece] goesOn walked
    have stands := directory_of_walk goesOn later
    have arrived : tree.walk .follow maxLinks (tree.base path) (front ++ [piece]) = .ok middle :=
      walk_concat front reached (stride_nothing nothing stands)
    rw [← pieces] at arrived
    exact is_directory_iff.2 ⟨middle, locate_eq_ok.2 ⟨checked, arrived⟩, stands⟩
  · exact nomatch there

/-- A path to a directory is carried on by a piece that leads on from there. -/
theorem locate_join {ending : Ending} {location next : Location}
    (located : tree.locate .follow path = .ok location)
    (ahead : tree.stride location piece = .go next) (plain : '/' ∉ piece) (noZero : '\x00' ∉ piece)
    (fits : Fits (path.join piece)) : tree.locate ending (path.join piece) = .ok next := by
  obtain ⟨checked, walked⟩ := locate_eq_ok.1 located
  obtain ⟨pathNoZero, nonempty, _⟩ := check_path_eq_ok.1 checked
  obtain ⟨front, joined, before⟩ := Path.pieces_join_front path plain
  have reached : tree.walk .follow maxLinks (tree.base path) front = .ok location := by
    rcases before nonempty with same | same
    · rw [← same]
      exact walked
    · rw [same] at walked
      obtain ⟨middle, reached, stands⟩ := walk_front front [[]] walked
      have onward : tree.walk .follow maxLinks (tree.base path) (front ++ [[]]) = .ok middle :=
        walk_concat front reached (stride_nothing rfl (stands (List.cons_ne_nil _ _)))
      obtain rfl := Except.ok.inj (walked.symm.trans onward)
      exact reached
  have allowed : checkPath (path.join piece) = .ok () := by
    obtain ⟨slash, text, slashes⟩ := Path.join_text path piece
    rw [check_path_eq_ok, text]
    refine ⟨?_, by simp [nonempty], fits⟩
    simp only [List.mem_append, not_or]
    refine ⟨⟨pathNoZero, fun member => ?_⟩, noZero⟩
    exact absurd (slashes _ member) (by decide)
  have start : tree.base (path.join piece) = tree.base path := by
    rw [base, base, Path.absolute_join nonempty]
  rw [locate_eq_ok, joined, start]
  exact ⟨allowed, walk_concat front reached ahead⟩

theorem nothing_dot : isNothing Path.dot = true := rfl

/-- A dot behind a directory leads to the directory. -/
theorem ends_join_dot (stands : tree.isDirectory path = true) :
    tree.Ends (path.join Path.dot) := by
  by_cases fits : Fits (path.join Path.dot)
  · obtain ⟨location, located, here⟩ := is_directory_iff.1 stands
    have ahead := stride_nothing nothing_dot here
    exact .inl (is_directory_iff.2
      ⟨location, locate_join located ahead (by decide) (by decide) fits, here⟩)
  · exact .inr (.inl fits)

theorem directory_of_same_dot (same : path.same ⟨Path.dot⟩ = true)
    (stands : tree.isDirectory path = true) : tree.isDirectory ⟨Path.dot⟩ = true := by
  obtain ⟨location, located, _⟩ := is_directory_iff.1 stands
  have walked := (locate_eq_ok.1 located).2
  have start := directory_of_walk (Path.pieces_ne_nil path) walked
  have relative : path.isAbsolute = false := Path.absolute_same (beq_iff_eq.1 same)
  rw [base, relative] at start
  refine is_directory_iff.2 ⟨tree.working, locate_eq_ok.2 ⟨by decide, ?_⟩, start⟩
  exact walk_concat [] walk_nil (stride_nothing nothing_dot start)

end FileTree

namespace Glob

variable {tree : FileTree} {before path : Path} {piece : Text}

theorem below_pieces (path : Path) (plain : '/' ∉ piece) :
    ∃ front, (below path piece).pieces = front ++ [piece] := by
  unfold below
  split
  · exact ⟨[], Path.pieces_plain plain⟩
  · exact Path.pieces_join path plain

theorem proper_of_child {name : Text} (proper : tree.ProperNames)
    (listed : name ∈ childNames tree path) : FileTree.isNothing name = false ∧ '/' ∉ name := by
  unfold childNames at listed
  split at listed
  · rw [FileTree.names, List.mem_mergeSort, List.mem_filterMap] at listed
    obtain ⟨entry, held, last⟩ := listed
    split at last
    · exact proper entry held name (List.mem_of_getLast? last)
    · exact nomatch last
  · exact absurd listed List.not_mem_nil

theorem ends_of_advance (proper : tree.ProperNames) (advances : Advances tree before path) :
    tree.Ends path := by
  have dotsPlain : '/' ∉ Path.dots := by decide
  cases advances with
  | @literal piece plain there =>
      obtain ⟨front, pieces⟩ := below_pieces before plain
      by_cases nothing : FileTree.isNothing piece = true
      · exact .inl (FileTree.directory_of_nothing pieces nothing there)
      · exact FileTree.ends_of_pieces pieces (Bool.eq_false_iff.2 nothing)
  | special special stands =>
      rcases special with rfl | rfl
      · unfold below
        by_cases same : before.same ⟨Path.dot⟩ = true
        · rw [if_pos same]
          exact .inl (FileTree.directory_of_same_dot same stands)
        · rw [if_neg same]
          exact FileTree.ends_join_dot stands
      · obtain ⟨front, pieces⟩ := below_pieces before dotsPlain
        exact FileTree.ends_of_pieces pieces rfl
  | inside special stands =>
      rcases special with rfl | rfl
      · obtain ⟨front, pieces⟩ := Path.pieces_join before dotsPlain
        exact FileTree.ends_of_pieces pieces rfl
      · exact FileTree.ends_join_dot stands
  | child listed =>
      obtain ⟨real, plain⟩ := proper_of_child proper listed
      obtain ⟨front, pieces⟩ := below_pieces before plain
      exact FileTree.ends_of_pieces pieces real

theorem expand_ends {text : Text} {found : List Path} (proper : tree.ProperNames)
    (expanded : expand tree text = .ok found) : ∀ path ∈ found, tree.Ends path := by
  intro path member
  obtain ⟨before, advances⟩ := expand_arrived expanded path member
  exact ends_of_advance proper advances

end Glob

end StylePurge
