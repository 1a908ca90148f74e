import StylePurge.Proofs.ContentNames
import StylePurge.Proofs.GlobStar
import StylePurge.Proofs.PathFronts

/-!
What is known of a selected content file. Selecting goes path by path and adds none that
was not judged; what one path adds holds for the whole list. The judgement looks at the
path itself and not at the directories that it goes through, so a link is never
selected, but a file behind a link to a directory can be.
-/

namespace StylePurge.Content

variable {tree : FileTree} {patterns exclude : List Text} {limits : Limits}

theorem judge_eq_ok {path : Path} {size : Nat} :
    judge tree limits path = .ok size ↔
      (limits.allowLinks = false → tree.isLink path = false) ∧
        tree.fileSize path = .ok size ∧ size ≤ limits.maxFileSize := by
  unfold judge
  by_cases refused : (!limits.allowLinks && tree.isLink path) = true
  · rw [if_pos refused]
    rw [Bool.and_eq_true, Bool.not_eq_true'] at refused
    simp [refused]
  · rw [if_neg refused]
    have unlinked : limits.allowLinks = false → tree.isLink path = false := by simpa using refused
    cases tree.fileSize path with
    | error fault => simp
    | ok found =>
        by_cases large : limits.maxFileSize < found
        · simp only [if_pos large, reduceCtorEq, Except.ok.injEq, false_iff, not_and]
          rintro _ rfl
          omega
        · simp only [if_neg large, Except.ok.injEq]
          constructor
          · rintro rfl
            exact ⟨unlinked, rfl, by omega⟩
          · rintro ⟨_, same, _⟩
            exact same

/-- The file was found to be no directory and within the limits. -/
structure Admitted (tree : FileTree) (limits : Limits) (file : ContentFile) : Prop where
  noDirectory : tree.isDirectory file.path = false
  judged : judge tree limits file.path = .ok file.size

theorem consider_admits {compiled : List Glob.Pattern} {selection : Selection} (path : Path)
    (admitted : ∀ file ∈ selection.files, Admitted tree limits file) :
    ∀ file ∈ (selection.consider tree compiled limits path).files, Admitted tree limits file := by
  rw [Selection.consider]
  by_cases skipped :
      (isPassedOver tree compiled path || selection.seen.contains path.components) = true
  · rw [if_pos skipped]
    exact admitted
  · rw [if_neg skipped]
    cases judged : judge tree limits path with
    | error refusal => exact admitted
    | ok size =>
        have noDirectory : tree.isDirectory path = false := by
          simp only [isPassedOver, Bool.or_eq_true, not_or, Bool.not_eq_true] at skipped
          exact skipped.1.2
        intro file member
        rcases List.mem_append.1 member with old | new
        · exact admitted file old
        · rw [List.mem_singleton.1 new]
          exact ⟨noDirectory, judged⟩

theorem consider_all_admits {compiled : List Glob.Pattern} {selection : Selection}
    (paths : List Path) (admitted : ∀ file ∈ selection.files, Admitted tree limits file) :
    ∀ file ∈ (paths.foldl (Selection.consider tree compiled limits) selection).files,
      Admitted tree limits file := by
  induction paths generalizing selection with
  | nil => exact admitted
  | cons path paths induction => exact induction (consider_admits path admitted)

theorem select_from_admits {compiled : List Glob.Pattern} {selection : Selection}
    (admitted : ∀ file ∈ selection.files, Admitted tree limits file) :
    ∀ file ∈ (selectFrom tree compiled limits selection patterns).1.files,
      Admitted tree limits file := by
  induction patterns generalizing selection with
  | nil => exact admitted
  | cons pattern patterns induction =>
      rw [selectFrom]
      cases Glob.expand tree pattern with
      | error fault => exact admitted
      | ok paths => exact induction (consider_all_admits paths admitted)

theorem collect_admits {files : List ContentFile}
    (collected : (collect tree patterns exclude limits).result = .ok files) :
    ∀ file ∈ files, Admitted tree limits file := by
  rw [collect_result, select] at collected
  cases compiled : exclude.mapM Glob.compile with
  | error fault => simp [compiled, Except.map] at collected
  | ok exclude =>
      have admitted : ∀ file ∈ (selectFrom tree exclude limits .start patterns).1.files,
          Admitted tree limits file := by
        apply select_from_admits
        intro file member
        exact absurd member List.not_mem_nil
      simp only [compiled] at collected
      generalize selectFrom tree exclude limits .start patterns = selected at collected admitted
      obtain ⟨selection, fault⟩ := selected
      cases fault with
      | some fault => simp [Except.map] at collected
      | none =>
          obtain rfl := Except.ok.inj collected
          exact admitted

/-- Following the path as far as this front of its pieces leads to a symbolic link, which
stands at the location. -/
structure LinkOn (tree : FileTree) (path : Path) (front : List Text) (location : Location) :
    Prop where
  isFront : front <+: path.pieces
  reached : tree.walk .keep FileTree.maxLinks (tree.base path) front = .ok location
  isLink : ∃ target, tree.entry? location = some (.link target)

/-- A path that leads to something passes links only where they lead to directories,
unless it is a link itself. -/
theorem directory_of_link_on {path : Path} {entry : Entry} {front : List Text}
    {location : Location} (found : tree.lookup path = .ok entry)
    (unlinked : tree.isLink path = false) (link : LinkOn tree path front location) :
    front ≠ path.pieces ∧
      ∃ directory, tree.walk .follow FileTree.maxLinks (tree.base path) front = .ok directory ∧
        tree.isDirectoryAt directory = true := by
  obtain ⟨final, arrived, _⟩ := FileTree.lookup_eq_ok.1 found
  obtain ⟨checked, walked⟩ := FileTree.locate_eq_ok.1 arrived
  obtain ⟨⟨rest, pieces⟩, reached, target, held⟩ := link
  have proper : front ≠ path.pieces := by
    rintro rfl
    have located : tree.locate .keep path = .ok location :=
      FileTree.locate_eq_ok.2 ⟨checked, reached⟩
    simp [FileTree.isLink, located, held] at unlinked
  have goesOn : rest ≠ [] := by
    rintro rfl
    rw [List.append_nil] at pieces
    exact proper pieces
  rw [← pieces] at walked
  obtain ⟨directory, passed, stands⟩ := FileTree.walk_front front rest walked
  exact ⟨proper, directory, passed, stands goesOn⟩

/-- Where links are not allowed, no selected path is a link. Links that a selected path
goes through lead to directories. -/
theorem collected_not_link {files : List ContentFile} (forbidden : limits.allowLinks = false)
    (collected : (collect tree patterns exclude limits).result = .ok files) :
    ∀ file ∈ files, tree.isLink file.path = false ∧
      ∀ front location, LinkOn tree file.path front location →
        front ≠ file.path.pieces ∧
          ∃ directory,
            tree.walk .follow FileTree.maxLinks (tree.base file.path) front = .ok directory ∧
              tree.isDirectoryAt directory = true := by
  intro file member
  obtain ⟨unlinked, sized, _⟩ := judge_eq_ok.1 (collect_admits collected file member).judged
  rw [FileTree.fileSize, bind_eq_ok] at sized
  obtain ⟨entry, found, _⟩ := sized
  exact ⟨unlinked forbidden, fun front location link =>
    directory_of_link_on found (unlinked forbidden) link⟩

/-- A directory with one file, and a link to the directory beside it. -/
def linkedDirectory : FileTree :=
  ⟨[['w']], [([['w']], .directory), ([['w'], ['d']], .directory),
    ([['w'], ['d'], ['a']], .file 0), ([['w'], ['l']], .link ⟨['d']⟩)], [[]]⟩

/-- However the directory is reached, the star finds its one file. -/
theorem expand_linked_directory {front : Text}
    (reaches : Glob.Reaches linkedDirectory front [['w'], ['d']]) :
    Glob.expand linkedDirectory (Glob.inside front) = .ok [⟨front ++ ['/', 'a']⟩] := by
  have names : linkedDirectory.names [['w'], ['d']] = [['a']] := by
    simp [FileTree.names, linkedDirectory]
  have named : ∀ name ∈ linkedDirectory.names [['w'], ['d']],
      FileTree.isSpecial name = false ∧ '/' ∉ name := by
    rw [names]
    decide
  rw [Glob.expand_inside reaches named, names, List.map_singleton, Glob.below_of_reaches reaches]

theorem reaches_behind_link : Glob.Reaches linkedDirectory ['l'] [['w'], ['d']] where
  plain := (Glob.free_of_clean (by decide)).2.1
  relative := rfl
  named := by decide
  unslashed := by decide
  led := by decide +kernel
  arrived := by decide +kernel
  located := to_option_eq_some.1 (by decide +kernel)
  stands := by decide +kernel

theorem linked_directory_collected :
    (collect linkedDirectory [['l', '/', '*']] [] .default).result =
      .ok [⟨⟨['l', '/', 'a']⟩, 0⟩] := by
  have expanded : Glob.expand linkedDirectory ['l', '/', '*'] = .ok [⟨['l', '/', 'a']⟩] :=
    expand_linked_directory reaches_behind_link
  have compiled : ([] : List Text).mapM Glob.compile = .ok [] := rfl
  rw [collect_result, select, compiled]
  dsimp only
  rw [selectFrom, expanded]
  apply to_option_eq_some.1
  decide +kernel

theorem linked_directory_link :
    LinkOn linkedDirectory ⟨['l', '/', 'a']⟩ [['l']] [['w'], ['l']] where
  isFront := ⟨[['a']], by decide⟩
  reached := by decide +kernel
  isLink := ⟨⟨['d']⟩, by decide +kernel⟩

theorem collected_not_link_below_link :
    (collect linkedDirectory [['l', '/', '*']] [] .default).result =
        .ok [⟨⟨['l', '/', 'a']⟩, 0⟩] ∧
      LinkOn linkedDirectory ⟨['l', '/', 'a']⟩ [['l']] [['w'], ['l']] ∧
      linkedDirectory.isLink ⟨['l', '/', 'a']⟩ = false ∧
      ∃ directory,
        linkedDirectory.walk .follow FileTree.maxLinks [['w']] [['l']] = .ok directory ∧
          linkedDirectory.isDirectoryAt directory = true := by
  obtain ⟨unlinked, behind⟩ := collected_not_link rfl linked_directory_collected
    ⟨⟨['l', '/', 'a']⟩, 0⟩ (List.mem_singleton_self _)
  exact ⟨linked_directory_collected, linked_directory_link, unlinked,
    (behind _ _ linked_directory_link).2⟩

/-- A file behind a link to a directory is selected, though links are not allowed. -/
theorem collected_behind_link :
    ¬∀ (tree : FileTree) (patterns exclude : List Text) (limits : Limits)
        (files : List ContentFile), limits.allowLinks = false →
      (collect tree patterns exclude limits).result = .ok files →
        ∀ file ∈ files, ∀ front location, LinkOn tree file.path front location →
          ¬tree.working <+: location := by
  intro claim
  exact claim linkedDirectory [['l', '/', '*']] [] .default _ rfl linked_directory_collected _
    (List.mem_singleton_self _) _ _ linked_directory_link ⟨[['l']], rfl⟩

end StylePurge.Content
