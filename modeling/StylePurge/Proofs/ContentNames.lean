import StylePurge.Outcome
import StylePurge.Proofs.ConfigMerge
import StylePurge.Proofs.FirstAppearance
import StylePurge.Proofs.MarkupNames
import StylePurge.Proofs.Stages

/-!
What a scan of content files brings in. Every name that it collects is a run of name
characters, and which files it selects depends on nothing but which paths the exclusions
match, so an exclusion given twice is as good as one. The names of the files come in the
order of the files.
-/

namespace StylePurge

namespace Glob

/-- A last component without wildcards names at most the one path. -/
theorem search_literal {tree : FileTree} {directoriesOnly : Bool} {depth : Nat} {pattern : Pattern}
    {piece : Text} (path : Path) (literal : pattern.literal? = some piece)
    (ordinary : piece ≠ Path.dot ∧ piece ≠ Path.dots) :
    search tree directoriesOnly depth [pattern] path =
      if tree.names? (below path piece) then accept tree directoriesOnly (below path piece)
      else [] := by
  rw [search, literal]
  simp only [ordinary.1, ordinary.2, decide_false, Bool.or_self, Bool.false_eq_true, if_false]
  rw [search]

/-- A pattern without wildcards expands to the one path that it spells. -/
theorem expand_literal {tree : FileTree} {text piece : Text} {scope : Path} {pattern : Pattern}
    (read : Query.ofPattern text = .ok ⟨scope, [pattern], false⟩)
    (literal : pattern.literal? = some piece) (ordinary : piece ≠ Path.dot ∧ piece ≠ Path.dots)
    (there : tree.names? (below scope piece) = true) :
    expand tree text = .ok [below scope piece] := by
  rw [expand, read, Except.map, Query.paths, search_literal scope literal ordinary, if_pos there]
  rfl

end Glob

namespace Content

variable {tree : FileTree} {patterns exclude : List Text} {limits : Limits} {paths : List Path}
variable {used : Whitelist}

theorem merge_eq (perFile : List (OrderedSet Text)) :
    merge perFile = .ofList (perFile.flatMap OrderedSet.toList) := by
  have grown (start : Whitelist) :
      perFile.foldl OrderedSet.union start = start.insertAll (perFile.flatMap OrderedSet.toList) := by
    induction perFile generalizing start with
    | nil => rfl
    | cons first rest induction =>
        rw [List.foldl_cons, induction, List.flatMap_cons, OrderedSet.insert_all_append]
        rfl
  exact grown .empty

theorem mem_merge {perFile : List (OrderedSet Text)} {name : Text} :
    name ∈ merge perFile ↔ ∃ names ∈ perFile, name ∈ names := by
  rw [merge_eq, OrderedSet.mem_of_list, List.mem_flatMap]
  rfl

theorem whitelist_result (tree : FileTree) (paths : List Path) :
    (whitelist tree paths).result = (paths.mapM (fileClasses tree)).map merge := by
  rw [whitelist, Logged.result_bind, Logged.result_of_except]
  cases paths.mapM (fileClasses tree) with
  | error error => rfl
  | ok perFile => rfl

/-- What is collected are names. -/
theorem whitelist_is_name (collected : (whitelist tree paths).result = .ok used) :
    ∀ name ∈ used, name.IsName := by
  intro name member
  rw [whitelist_result] at collected
  cases read : paths.mapM (fileClasses tree) with
  | error error =>
      rw [read] at collected
      exact nomatch collected
  | ok perFile =>
      rw [read] at collected
      obtain rfl := Except.ok.inj collected
      obtain ⟨names, found, inside⟩ := mem_merge.1 member
      obtain ⟨path, _, scanned⟩ := (mem_of_map_m read names).1 found
      unfold fileClasses at scanned
      split at scanned
      · rename_i markup _
        obtain rfl := Except.ok.inj scanned
        exact Markup.class_is_name inside
      · exact nomatch scanned

section Exclusions

variable {first second : List Glob.Pattern}

theorem consider_alike
    (alike : ∀ text : Text, first.any (·.matches text) = second.any (·.matches text))
    (selection : Selection) (path : Path) :
    selection.consider tree first limits path = selection.consider tree second limits path := by
  rw [Selection.consider, Selection.consider, isPassedOver, isPassedOver, alike]

theorem select_from_alike
    (alike : ∀ text : Text, first.any (·.matches text) = second.any (·.matches text))
    (selection : Selection) :
    selectFrom tree first limits selection patterns =
      selectFrom tree second limits selection patterns := by
  induction patterns generalizing selection with
  | nil => rfl
  | cons pattern patterns induction =>
      have same : Selection.consider tree first limits = Selection.consider tree second limits := by
        funext selection path
        exact consider_alike alike selection path
      rw [selectFrom, selectFrom]
      cases Glob.expand tree pattern with
      | error fault => rfl
      | ok paths =>
          simp only [same]
          exact induction _

theorem compile_same {other : List Text} {compiled : List Glob.Pattern}
    (same : ∀ entry, entry ∈ other ↔ entry ∈ exclude)
    (success : exclude.mapM Glob.compile = .ok compiled) :
    ∃ others, other.mapM Glob.compile = .ok others ∧
      ∀ text : Text, others.any (·.matches text) = compiled.any (·.matches text) := by
  -- The same patterns are compiled, only in another number of copies.
  obtain ⟨others, done⟩ := map_m_success fun entry known =>
    of_map_m success entry ((same entry).1 known)
  refine ⟨others, done, ?_⟩
  have alike (pattern : Glob.Pattern) : pattern ∈ others ↔ pattern ∈ compiled := by
    rw [mem_of_map_m done, mem_of_map_m success]
    simp only [same]
  intro text
  rw [Bool.eq_iff_iff, List.any_eq_true, List.any_eq_true]
  simp only [alike]

end Exclusions

/-- How often an exclusion is given and in what order does not matter. -/
theorem select_same {other : List Text} {selection : Selection}
    (same : ∀ entry, entry ∈ other ↔ entry ∈ exclude)
    (selected : (select tree patterns exclude limits).result = .ok selection) :
    (select tree patterns other limits).result = .ok selection := by
  unfold select at selected
  cases success : exclude.mapM Glob.compile with
  | error fault =>
      rw [success] at selected
      exact nomatch selected
  | ok compiled =>
      obtain ⟨others, done, alike⟩ := compile_same same success
      rw [success] at selected
      rw [select, done]
      dsimp only at selected ⊢
      rw [select_from_alike alike]
      exact selected

theorem collect_result (tree : FileTree) (patterns exclude : List Text) (limits : Limits) :
    (collect tree patterns exclude limits).result =
      (select tree patterns exclude limits).result.map Selection.files := by
  rw [collect, Logged.result_bind]
  cases (select tree patterns exclude limits).result with
  | error error => rfl
  | ok selection =>
      by_cases refused : 0 < selection.refused
      · simp [Except.bind, Except.map, refused, Logged.result_bind]
      · simp [Except.bind, Except.map, refused]

theorem collect_same {other : List Text} {files : List ContentFile}
    (same : ∀ entry, entry ∈ other ↔ entry ∈ exclude)
    (collected : (collect tree patterns exclude limits).result = .ok files) :
    (collect tree patterns other limits).result = .ok files := by
  rw [collect_result] at collected ⊢
  cases selected : (select tree patterns exclude limits).result with
  | error error =>
      rw [selected] at collected
      exact nomatch collected
  | ok selection =>
      rw [select_same same selected]
      rw [selected] at collected
      exact collected

theorem discover_result (tree : FileTree) (patterns exclude : List Text) (limits : Limits) :
    (discover tree patterns exclude limits).result =
      match (select tree patterns exclude limits).result with
      | .error error => .error error
      | .ok selection =>
          if selection.files.isEmpty then .error .noFiles
          else .ok (selection.files.map ContentFile.path) := by
  rw [discover, Logged.result_bind, collect_result]
  cases (select tree patterns exclude limits).result with
  | error error => rfl
  | ok selection =>
      by_cases nothing : selection.files = []
      · simp [Except.bind, Except.map, nothing]
      · simp [Except.bind, Except.map, nothing, Logged.result_bind]

theorem discover_eq_ok :
    (discover tree patterns exclude limits).result = .ok paths ↔
      paths ≠ [] ∧ ∃ files, (collect tree patterns exclude limits).result = .ok files ∧
        files.map ContentFile.path = paths := by
  rw [discover_result, collect_result]
  cases (select tree patterns exclude limits).result with
  | error error => simp [Except.map]
  | ok selection =>
      simp only [Except.map, Except.ok.injEq, exists_eq_left']
      by_cases nothing : selection.files = []
      · simp [nothing, eq_comm]
      · rw [if_neg (by simpa using nothing), Except.ok.injEq]
        constructor
        · rintro rfl
          exact ⟨by simpa using nothing, rfl⟩
        · exact And.right

theorem patterns_of_discover
    (found : (discover tree patterns exclude limits).result = .ok paths) : patterns ≠ [] := by
  rintro rfl
  rw [discover_result, select] at found
  cases compiled : exclude.mapM Glob.compile with
  | error fault => simp [compiled] at found
  | ok fewer => simp [compiled, selectFrom, Selection.start] at found

theorem scan_nothing (machine : Machine) (jobs : Option Nat) (tree : FileTree)
    (exclude : List Text) (limits : Limits) :
    (scan machine jobs tree [] exclude limits).result = .ok (.empty, 0) := rfl

end Content

end StylePurge
