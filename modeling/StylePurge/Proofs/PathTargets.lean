import StylePurge.Proofs.PathFronts
import StylePurge.Proofs.TextPieces
import StylePurge.Proofs.TreeChange

/-!
Targets of changes. A change acts on the last piece of its path, in the directory that
the pieces in front of it lead into. The name of a second file beside a path is the file
name with an ending, so the two are never the same.
-/

namespace StylePurge

namespace Path

/-- The pieces in front of the last one, slashes behind that passed over. -/
def outer (path : Path) : List Text := (path.pieces.reverse.dropWhile List.isEmpty).tail.reverse

theorem pieces_ne_nil (path : Path) : path.pieces ≠ [] := Text.split_at_ne_nil _ path.text

theorem outer_of_pieces {path : Path} {front : List Text} {piece : Text}
    (pieces : path.pieces = front ++ [piece]) (nonempty : piece ≠ []) : path.outer = front := by
  rw [outer, pieces, List.reverse_append, List.reverse_singleton, List.singleton_append,
    List.dropWhile_cons_of_neg (by simpa using nonempty), List.tail_cons, List.reverse_reverse]

theorem pieces_plain {piece : Text} (plain : '/' ∉ piece) : (Path.mk piece).pieces = [piece] := by
  apply Text.split_at_free
  intro character member
  rw [beq_eq_false_iff_ne]
  rintro rfl
  exact plain member

/-- Joining puts the piece behind the pieces of the path, a trailing slash passed over. -/
theorem pieces_join_front (path : Path) {piece : Text} (plain : '/' ∉ piece) :
    ∃ front, (path.join piece).pieces = front ++ [piece] ∧
      (path.text ≠ [] → path.pieces = front ∨ path.pieces = front ++ [[]]) := by
  have alone : Text.splitAt (· == '/') piece = [piece] := pieces_plain plain
  have behind (front : Text) : Text.splitAt (· == '/') (front ++ '/' :: piece) =
      Text.splitAt (· == '/') front ++ [piece] := by
    rw [Text.split_at_parts (by decide), alone]
  rw [join, pieces, pieces]
  split
  · rename_i ends
    rw [Bool.or_eq_true, List.isEmpty_iff, beq_iff_eq] at ends
    rcases ends with empty | slash
    · exact ⟨[], by rw [empty]; exact alone, fun nonempty => absurd empty nonempty⟩
    · obtain ⟨front, text⟩ := List.getLast?_eq_some_iff.1 slash
      refine ⟨Text.splitAt (· == '/') front, ?_, fun _ => .inr ?_⟩
      · rw [text, List.append_assoc, List.singleton_append, behind]
      · rw [text, Text.split_at_parts (by decide)]
        rfl
  · refine ⟨Text.splitAt (· == '/') path.text, ?_, fun _ => .inl rfl⟩
    dsimp only
    rw [List.append_assoc, List.singleton_append, behind]

theorem join_text (path : Path) (piece : Text) :
    ∃ slash, (path.join piece).text = path.text ++ slash ++ piece ∧
      ∀ character ∈ slash, character = '/' := by
  unfold join
  split
  · exact ⟨[], by rw [List.append_nil], fun _ member => absurd member List.not_mem_nil⟩
  · exact ⟨['/'], rfl, fun _ member => List.mem_singleton.1 member⟩

theorem absolute_join {path : Path} {piece : Text} (nonempty : path.text ≠ []) :
    (path.join piece).isAbsolute = path.isAbsolute := by
  obtain ⟨slash, text, _⟩ := join_text path piece
  obtain ⟨first, rest, start⟩ := List.exists_cons_of_ne_nil nonempty
  rw [isAbsolute, isAbsolute, text, start]
  rfl

theorem pieces_join (path : Path) {piece : Text} (plain : '/' ∉ piece) :
    ∃ front, (path.join piece).pieces = front ++ [piece] :=
  (pieces_join_front path plain).imp fun _ joined => joined.1

theorem component_of_name {piece name : Text} (read : component? piece = some (.name name)) :
    name = piece := by
  unfold component? at read
  split at read
  · exact nomatch read
  split at read
  · exact nomatch Option.some.inj read
  · exact (Component.name.inj (Option.some.inj read)).symm

theorem file_name_plain {path : Path} {name : Text} (named : path.fileName? = some name) :
    '/' ∉ name := by
  have last : path.components.getLast? = some (.name name) := by
    unfold fileName? at named
    split at named
    · rename_i found
      rw [found, Option.some.inj named]
    · exact nomatch named
  have listed : Component.name name ∈ path.components := List.mem_of_getLast? last
  have read : Component.name name ∈ path.pieces.filterMap component? := by
    unfold components at listed
    dsimp only at listed
    split at listed
    · exact List.mem_of_ne_of_mem Component.noConfusion listed
    split at listed
    · exact List.mem_of_ne_of_mem Component.noConfusion listed
    · exact listed
  obtain ⟨piece, member, found⟩ := List.mem_filterMap.1 read
  obtain rfl := component_of_name found
  intro slash
  exact absurd (Text.mem_piece member slash).1 (by decide)

theorem file_name_of_pieces {path : Path} {front : List Text} {piece : Text}
    (pieces : path.pieces = front ++ [piece]) (ordinary : FileTree.isSpecial piece = false) :
    path.fileName? = some piece := by
  have read : component? piece = some (.name piece) := by
    simp only [FileTree.isSpecial, FileTree.isNothing, Bool.or_eq_false_iff,
      beq_eq_false_iff_ne] at ordinary
    obtain ⟨⟨nonempty, noDot⟩, noDots⟩ := ordinary
    rw [component?, if_neg (by simp [nonempty, noDot]), if_neg noDots]
  have body : path.pieces.filterMap component? =
      front.filterMap component? ++ [.name piece] := by
    rw [pieces, List.filterMap_append, List.filterMap_cons_some read, List.filterMap_nil]
  have last : path.components.getLast? = some (.name piece) := by
    unfold components
    dsimp only
    rw [body]
    split
    · rw [← List.cons_append, List.getLast?_concat]
    split
    · rw [← List.cons_append, List.getLast?_concat]
    · rw [List.getLast?_concat]
  rw [fileName?, last]

end Path

namespace Change

/-- The name of the second file. -/
def besideName (path : Path) : Text := path.fileName?.getD [] ++ ['.', 't', 'm', 'p']

theorem beside_pieces (path : Path) :
    ∃ front, (besidePath path).pieces = front ++ [besideName path] := by
  have plain : '/' ∉ besideName path := by
    have ending : '/' ∉ (['.', 't', 'm', 'p'] : Text) := by decide
    rw [besideName, List.mem_append, not_or]
    refine ⟨?_, ending⟩
    cases named : path.fileName? with
    | none => simp
    | some name => exact Path.file_name_plain named
  exact Path.pieces_join _ plain

end Change

namespace FileTree

variable {tree before after : FileTree} {path : Path} {target : Target}

theorem location_ne_nil (target : Target) : target.location ≠ [] :=
  List.append_ne_nil_of_right_ne_nil _ (List.cons_ne_nil target.piece [])

/-- The locations that finding the directory of a path looks at. -/
def approach (tree : FileTree) (path : Path) : List Location :=
  tree.visit maxLinks (tree.base path) path.outer

theorem target_eq_ok :
    tree.target path = .ok target ↔
      checkPath path = .ok () ∧
        match path.pieces.reverse.dropWhile List.isEmpty with
        | [] => target = ⟨[], [], true⟩
        | piece :: _ =>
            tree.walk .follow maxLinks (tree.base path) path.outer = .ok target.directory ∧
              tree.isDirectoryAt target.directory = true ∧ target.piece = piece ∧
                target.slashed = !(path.pieces.reverse.takeWhile List.isEmpty).isEmpty := by
  have checks (rest : Unit → Except Fault Target) :
      (checkPath path >>= rest) = .ok target ↔
        checkPath path = .ok () ∧ rest () = .ok target := by
    rw [bind_eq_ok]
    exact ⟨fun ⟨_, passed, ready⟩ => ⟨passed, ready⟩, fun ⟨passed, ready⟩ => ⟨(), passed, ready⟩⟩
  rw [FileTree.target, checks, Path.outer]
  apply and_congr_right
  intro _
  dsimp only
  generalize path.pieces.reverse.dropWhile List.isEmpty = reversed
  cases reversed with
  | nil => exact ⟨fun same => (Except.ok.inj same).symm, fun same => by rw [same]⟩
  | cons piece outer =>
      dsimp only [List.tail_cons]
      rw [bind_eq_ok]
      constructor
      · rintro ⟨directory, arrived, rest⟩
        split at rest
        · rename_i stands
          obtain rfl := Except.ok.inj rest
          exact ⟨arrived, stands, rfl, rfl⟩
        · exact nomatch rest
      · obtain ⟨directory, last, slashed⟩ := target
        rintro ⟨arrived, stands, rfl, rfl⟩
        exact ⟨directory, arrived, if_pos stands⟩

theorem target_of_pieces {front : List Text} {piece : Text}
    (pieces : path.pieces = front ++ [piece]) (nonempty : piece ≠ []) :
    tree.target path = .ok target ↔
      checkPath path = .ok () ∧
        tree.walk .follow maxLinks (tree.base path) front = .ok target.directory ∧
          tree.isDirectoryAt target.directory = true ∧ target.piece = piece ∧
            target.slashed = false := by
  have reversed : path.pieces.reverse = piece :: front.reverse := by
    rw [pieces, List.reverse_append, List.reverse_singleton, List.singleton_append]
  have full : ¬piece.isEmpty = true := by simpa using nonempty
  rw [target_eq_ok, Path.outer_of_pieces pieces nonempty, reversed,
    List.dropWhile_cons_of_neg full, List.takeWhile_cons_of_neg full]
  rfl

/-- A path without a slash behind it ends in the last piece of its target. -/
theorem pieces_of_target (found : tree.target path = .ok target)
    (unslashed : target.slashed = false) :
    ∃ front, path.pieces = front ++ [target.piece] := by
  obtain ⟨_, found⟩ := target_eq_ok.1 found
  have parts := List.takeWhile_append_dropWhile (p := List.isEmpty) (l := path.pieces.reverse)
  cases pieces : path.pieces.reverse.dropWhile List.isEmpty with
  | nil =>
      simp only [pieces] at found
      rw [found] at unslashed
      exact nomatch unslashed
  | cons piece outer =>
      simp only [pieces] at found
      obtain ⟨_, _, rfl, slashes⟩ := found
      have none : path.pieces.reverse.takeWhile List.isEmpty = [] := by
        rw [slashes] at unslashed
        simpa using unslashed
      rw [none, pieces, List.nil_append] at parts
      refine ⟨outer.reverse, ?_⟩
      rw [← List.reverse_cons, parts, List.reverse_reverse]

/-- A target stays where it is when the directories and links on the way to its directory
stay. -/
theorem target_of_spared (working : after.working = before.working)
    (spared : ∀ place ∈ before.approach path, before.isDirectoryAt place = true ∨
      (∃ link, before.entry? place = some (.link link)) →
        after.entry? place = before.entry? place)
    (found : before.target path = .ok target) : after.target path = .ok target := by
  rw [target_eq_ok] at found ⊢
  obtain ⟨checked, found⟩ := found
  refine ⟨checked, ?_⟩
  split
  · rename_i empty
    simpa only [empty] using found
  · rename_i piece outer pieces
    simp only [pieces] at found
    obtain ⟨arrived, stands, last⟩ := found
    obtain ⟨walked, directory, _⟩ := walk_to_directory path.outer arrived stands spared
    rw [base_of_working working]
    exact ⟨walked, directory, last⟩

/-- What a change needs of a target to move a file to it. -/
structure Replaceable (tree : FileTree) (path : Path) (target : Target) : Prop where
  found : tree.target path = .ok target
  ordinary : isSpecial target.piece = false
  fits : Text.byteSize target.piece ≤ maxNameSize
  unslashed : target.slashed = false
  noDirectory : tree.isDirectoryAt target.location = false

theorem renamed_eq_ok {machine : Machine} {source destination : Path} {renamed : FileTree} :
    tree.renamed machine source destination = .ok renamed ↔
      ∃ old new entry, tree.target source = .ok old ∧ Replaceable tree destination new ∧
        tree.entry? old.location = some entry ∧
          (if tree.isOne machine entry old.location new.location then tree
            else (tree.remove old.location).place new.location entry) = renamed := by
  have chosen (condition : Bool) (kept moved : FileTree) :
      (if condition then Except.ok kept else Except.ok moved : Except Fault FileTree) =
        .ok (if condition then kept else moved) := by
    cases condition <;> rfl
  rw [FileTree.renamed]
  simp only [bind_eq_ok, chosen]
  constructor
  · rintro ⟨old, oldFound, new, newFound, success⟩
    split at success
    · exact nomatch success
    rename_i ordinary
    split at success
    · exact nomatch success
    rename_i entry held
    split at success
    · exact nomatch success
    rename_i fits
    split at success
    · exact nomatch success
    rename_i unslashed
    split at success
    · exact nomatch success
    rename_i noDirectory
    refine ⟨old, new, entry, oldFound, ⟨newFound, ?_, ?_, ?_, ?_⟩, held, Except.ok.inj success⟩
    · simpa using ordinary
    · exact Nat.le_of_not_lt fits
    · simpa using unslashed
    · simpa using noDirectory
  · rintro ⟨old, new, entry, oldFound, ⟨newFound, ordinary, fits, unslashed, noDirectory⟩, held, rfl⟩
    refine ⟨old, oldFound, new, newFound, ?_⟩
    simp [ordinary, held, Nat.not_lt.2 fits, unslashed, noDirectory]

section Opens

variable {opened : Location} {number : Nat}

/-- Directories and links stay when a file is opened. -/
theorem passable_of_opens (opens : Opens before opened number after) {place : Location}
    (passable : before.isDirectoryAt place = true ∨
      ∃ link, before.entry? place = some (.link link)) :
    after.entry? place = before.entry? place := by
  apply opens.others
  rintro rfl
  rcases passable with stands | ⟨link, held⟩
  · exact nomatch stands.symm.trans (no_directory_of_opens opens)
  · exact unlinked_of_opens opens link held

theorem target_before_opens (opens : Opens before opened number after)
    (found : after.target path = .ok target) : before.target path = .ok target := by
  apply target_of_spared opens.working.symm _ found
  intro place _ passable
  symm
  apply opens.others
  rintro rfl
  rcases passable with stands | ⟨link, held⟩
  · simp [isDirectoryAt, opens.held] at stands
  · simp [opens.held] at held

/-- A file that is opened does not get in the way of a target. -/
theorem target_after_opens (opens : Opens before opened number after)
    (found : before.target path = .ok target) : after.target path = .ok target :=
  target_of_spared opens.working (fun _ _ => passable_of_opens opens) found

theorem directory_of_opens (opens : Opens before opened number after) (location : Location) :
    after.isDirectoryAt location = before.isDirectoryAt location := by
  by_cases here : location = opened
  · rw [here, no_directory_of_opens opens, isDirectoryAt, opens.held]
    rfl
  · exact directory_of_entry (opens.others location here)

end Opens

end FileTree

end StylePurge
