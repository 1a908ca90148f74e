import Mathlib.Data.List.Nodup
import StylePurge.Proofs.FirstSpelling
import StylePurge.Proofs.GlobStar
import StylePurge.Proofs.SelectedFiles
import StylePurge.Proofs.StandingTree

/-!
Which files are selected. The paths that the patterns find are considered one after the
other, and every path is judged once, in the spelling in which it is found first. Spellings of
one path lead to the same file, so which spelling comes first makes no difference: the same
files are selected in whatever order and however often the patterns come. Only a spelling
that is too long for the system is refused where a shorter one may be accepted.
-/

namespace StylePurge.Content

variable {tree : FileTree} {patterns exclude : List Text} {limits : Limits}
variable {compiled : List Glob.Pattern} {found : List (List Path)}

/-- The file that a path stands for, if the restrictions accept it. -/
def accepted? (tree : FileTree) (limits : Limits) (path : Path) : Option ContentFile :=
  (judge tree limits path).toOption.map (ContentFile.mk path)

/-- The paths that were found and are neither excluded nor directories. -/
def candidates (tree : FileTree) (compiled : List Glob.Pattern) (found : List (List Path)) :
    List Path :=
  found.flatten.filter fun path => !isPassedOver tree compiled path

/-- What has been selected once these candidates have been considered. -/
structure Follows (tree : FileTree) (limits : Limits) (considered : List Path)
    (selection : Selection) : Prop where
  seen : ∀ components, components ∈ selection.seen ↔
    components ∈ considered.map Path.components
  files : selection.files = (firsts considered).filterMap (accepted? tree limits)
  refused : selection.refused =
    (firsts considered).countP fun path => (accepted? tree limits path).isNone

variable {considered : List Path} {selection : Selection}

theorem follows_start : Follows tree limits [] .start := ⟨fun _ => Iff.rfl, rfl, rfl⟩

/-- A path that is there in another spelling changes nothing. -/
theorem follows_known {path : Path} (follows : Follows tree limits considered selection)
    (known : path.components ∈ considered.map Path.components) :
    Follows tree limits (considered ++ [path]) selection where
  seen := by
    intro components
    rw [follows.seen, List.map_append, List.mem_append, List.map_singleton, List.mem_singleton]
    refine ⟨.inl, fun either => either.elim id ?_⟩
    rintro rfl
    exact known
  files := by rw [firsts_concat, if_pos known, follows.files]
  refused := by rw [firsts_concat, if_pos known, follows.refused]

theorem follows_new {path : Path} (follows : Follows tree limits considered selection)
    (new : path.components ∉ considered.map Path.components)
    (kept : isPassedOver tree compiled path = false) :
    Follows tree limits (considered ++ [path]) (selection.consider tree compiled limits path) := by
  have unseen : selection.seen.contains path.components = false := by
    rw [Bool.eq_false_iff, ne_eq, List.contains_iff_mem, follows.seen]
    exact new
  have judges : (isPassedOver tree compiled path || selection.seen.contains path.components) =
      false := by
    rw [kept, unseen]
    rfl
  have seen (components : List Path.Component) :
      components ∈ path.components :: selection.seen ↔
        components ∈ (considered ++ [path]).map Path.components := by
    rw [List.mem_cons, follows.seen, List.map_append, List.mem_append, List.map_singleton,
      List.mem_singleton, or_comm]
  have ahead : firsts (considered ++ [path]) = firsts considered ++ [path] := by
    rw [firsts_concat, if_neg new]
  rw [Selection.consider, judges, if_neg Bool.false_ne_true]
  cases judged : judge tree limits path with
  | error refusal =>
      have none : accepted? tree limits path = none := by rw [accepted?, judged]; rfl
      refine ⟨seen, ?_, ?_⟩
      · rw [ahead, List.filterMap_append, ← follows.files, List.filterMap_cons_none none]
        exact (List.append_nil _).symm
      · rw [ahead, List.countP_append, ← follows.refused]
        simp [none]
  | ok size =>
      have some : accepted? tree limits path = some ⟨path, size⟩ := by rw [accepted?, judged]; rfl
      refine ⟨seen, ?_, ?_⟩
      · rw [ahead, List.filterMap_append, ← follows.files, List.filterMap_cons_some some]
        rfl
      · rw [ahead, List.countP_append, ← follows.refused]
        simp [some]

theorem follows_consider (path : Path) (follows : Follows tree limits considered selection) :
    Follows tree limits (considered ++ [path].filter fun path => !isPassedOver tree compiled path)
      (selection.consider tree compiled limits path) := by
  by_cases passed : isPassedOver tree compiled path = true
  · rw [List.filter_cons_of_neg (by simp [passed]), List.filter_nil, List.append_nil,
      Selection.consider, if_pos (by rw [passed, Bool.true_or])]
    exact follows
  rw [List.filter_cons_of_pos (by simp [passed]), List.filter_nil]
  by_cases known : path.components ∈ considered.map Path.components
  · have contained : selection.seen.contains path.components = true :=
      List.contains_iff_mem.2 ((follows.seen _).2 known)
    rw [Selection.consider, if_pos (by rw [contained, Bool.or_true])]
    exact follows_known follows known
  · exact follows_new follows known (Bool.eq_false_iff.2 passed)

theorem follows_all (paths : List Path) :
    Follows tree limits (paths.filter fun path => !isPassedOver tree compiled path)
      (paths.foldl (Selection.consider tree compiled limits) .start) := by
  induction paths using List.reverseRecOn with
  | nil => exact follows_start
  | append_singleton front last induction =>
      rw [List.filter_append, List.foldl_append]
      exact follows_consider last induction

/-- Where all patterns are well formed, going through them in turn is going through all paths
that they find. -/
theorem select_from_found (selection : Selection)
    (expanded : patterns.mapM (Glob.expand tree) = .ok found) :
    selectFrom tree compiled limits selection patterns =
      (found.flatten.foldl (Selection.consider tree compiled limits) selection, none) := by
  have related := map_m_eq_ok.1 expanded
  clear expanded
  induction related generalizing selection with
  | nil => rfl
  | cons here _ induction =>
      rw [selectFrom, here, List.flatten_cons, List.foldl_append]
      exact induction _

theorem select_follows (excluded : exclude.mapM Glob.compile = .ok compiled)
    (expanded : patterns.mapM (Glob.expand tree) = .ok found) :
    ∃ selection, (select tree patterns exclude limits).result = .ok selection ∧
      Follows tree limits (candidates tree compiled found) selection := by
  refine ⟨_, ?_, follows_all found.flatten⟩
  rw [select, excluded]
  dsimp only
  rw [select_from_found .start expanded]

/-- A pattern that is not well formed spoils the selection, be it the last one. -/
theorem select_from_fault {pattern : Text} (selection : Selection) (listed : pattern ∈ patterns)
    {fault : Glob.PatternFault} (broken : Glob.expand tree pattern = .error fault) :
    ∃ first, (selectFrom tree compiled limits selection patterns).2 = some first := by
  induction patterns generalizing selection with
  | nil => exact absurd listed List.not_mem_nil
  | cons other others induction =>
      rw [selectFrom]
      cases expanded : Glob.expand tree other with
      | error first => exact ⟨first, rfl⟩
      | ok paths =>
          apply induction
          apply (List.mem_cons.1 listed).resolve_left
          rintro rfl
          simp [expanded] at broken

/-- All patterns and all exclusions are well formed. -/
structure WellFormed (patterns exclude : List Text) : Prop where
  patterns : ∀ entry ∈ patterns, ∃ query, Glob.Query.ofPattern entry = .ok query
  exclude : ∀ entry ∈ exclude, ∃ pattern, Glob.compile entry = .ok pattern

theorem well_formed_iff (tree : FileTree) :
    WellFormed patterns exclude ↔
      ∃ compiled found, exclude.mapM Glob.compile = .ok compiled ∧
        patterns.mapM (Glob.expand tree) = .ok found := by
  constructor
  · rintro ⟨queries, compiles⟩
    obtain ⟨compiled, excluded⟩ := map_m_success compiles
    obtain ⟨found, expanded⟩ : ∃ found, patterns.mapM (Glob.expand tree) = .ok found := by
      apply map_m_success
      intro entry listed
      obtain ⟨query, read⟩ := queries entry listed
      exact ⟨query.paths tree, Glob.expand_eq_ok.2 ⟨query, read, rfl⟩⟩
    exact ⟨compiled, found, excluded, expanded⟩
  · rintro ⟨compiled, found, excluded, expanded⟩
    refine ⟨fun entry listed => ?_, of_map_m excluded⟩
    obtain ⟨paths, here⟩ := of_map_m expanded entry listed
    obtain ⟨query, read, _⟩ := Glob.expand_eq_ok.1 here
    exact ⟨query, read⟩

theorem collect_fault (broken : ¬WellFormed patterns exclude) :
    ∃ fault, (collect tree patterns exclude limits).result = .error (.pattern fault) := by
  rw [collect_result, select]
  cases excluded : exclude.mapM Glob.compile with
  | error fault => exact ⟨fault, rfl⟩
  | ok compiled =>
      cases expanded : patterns.mapM (Glob.expand tree) with
      | ok found =>
          exact absurd ((well_formed_iff tree).2 ⟨compiled, found, excluded, expanded⟩) broken
      | error fault =>
          obtain ⟨entry, listed, failed⟩ := map_m_eq_error expanded
          obtain ⟨first, stopped⟩ := @select_from_fault tree patterns limits compiled entry .start
            listed fault failed
          dsimp only
          generalize selectFrom tree compiled limits .start patterns = outcome at stopped
          obtain ⟨selection, last⟩ := outcome
          obtain rfl := stopped
          exact ⟨first, rfl⟩

/-- The restrictions accept the path, which leads to something of this size. -/
structure Admissible (tree : FileTree) (limits : Limits) (path : Path) (size : Nat) : Prop where
  unlinked : limits.allowLinks = false → tree.isLink path = false
  sized : tree.fileSize path = .ok size
  bounded : size ≤ limits.maxFileSize

theorem accepted_eq_some {path : Path} {file : ContentFile} :
    accepted? tree limits path = some file ↔
      file.path = path ∧ Admissible tree limits path file.size := by
  have judged (size : Nat) :
      judge tree limits path = .ok size ↔ Admissible tree limits path size := by
    rw [judge_eq_ok]
    exact ⟨fun ⟨unlinked, sized, bounded⟩ => ⟨unlinked, sized, bounded⟩,
      fun ⟨unlinked, sized, bounded⟩ => ⟨unlinked, sized, bounded⟩⟩
  rw [accepted?, Option.map_eq_some_iff]
  simp only [to_option_eq_some, judged]
  constructor
  · rintro ⟨size, admissible, rfl⟩
    exact ⟨rfl, admissible⟩
  · rintro ⟨rfl, admissible⟩
    exact ⟨file.size, admissible, rfl⟩

/-- The selected files are the admissible ones among the candidates, each once with its size, in
the order in which they first come and in the spelling that comes first. The other candidates
are refused, each path once. -/
structure Selects (tree : FileTree) (limits : Limits) (candidates : List Path)
    (selection : Selection) : Prop where
  files : ∀ path size, ⟨path, size⟩ ∈ selection.files ↔
    FirstSpelled candidates path ∧ Admissible tree limits path size
  order : OrderedSet.ByFirstPlace (candidates.map Path.components)
    (selection.files.map fun file => file.path.components)
  refused : selection.refused =
    ((OrderedSet.ofList (candidates.map Path.components)).toList.filter fun components =>
      decide (components ∉ selection.files.map fun file => file.path.components)).length

theorem components_accepted (paths : List Path) :
    (paths.filterMap (accepted? tree limits)).map (fun file => file.path.components) =
      (paths.filter fun path => (accepted? tree limits path).isSome).map Path.components := by
  induction paths with
  | nil => rfl
  | cons path paths induction =>
      cases judged : accepted? tree limits path with
      | none =>
          rw [List.filterMap_cons_none judged, List.filter_cons_of_neg (by simp [judged]),
            induction]
      | some file =>
          rw [List.filterMap_cons_some judged, List.filter_cons_of_pos (by simp [judged]),
            List.map_cons, List.map_cons, induction, (accepted_eq_some.1 judged).1]

theorem selects_of_follows (follows : Follows tree limits considered selection) :
    Selects tree limits considered selection where
  files := by
    intro path size
    rw [follows.files, List.mem_filterMap, ← mem_firsts]
    simp only [accepted_eq_some]
    constructor
    · rintro ⟨_, listed, rfl, admissible⟩
      exact ⟨listed, admissible⟩
    · rintro ⟨listed, admissible⟩
      exact ⟨path, listed, rfl, admissible⟩
  order := by
    rw [follows.files, components_accepted]
    have ordered := OrderedSet.of_list_by_first_place (considered.map Path.components)
    rw [← components_firsts] at ordered
    exact ordered.sublist (List.filter_sublist.map Path.components)
  refused := by
    have distinct : ((firsts considered).map Path.components).Nodup := by
      rw [components_firsts]
      exact (OrderedSet.ofList _).distinct
    rw [follows.refused, follows.files, components_accepted, ← components_firsts, List.filter_map,
      List.length_map, List.countP_eq_length_filter]
    congr 1
    apply List.filter_congr
    intro path member
    have selected : path.components ∈ ((firsts considered).filter fun path =>
        (accepted? tree limits path).isSome).map Path.components ↔
          (accepted? tree limits path).isSome = true := by
      constructor
      · intro listed
        obtain ⟨other, found, same⟩ := List.mem_map.1 listed
        obtain ⟨there, some⟩ := List.mem_filter.1 found
        rwa [← List.inj_on_of_nodup_map distinct there member same]
      · intro some
        exact List.mem_map_of_mem (List.mem_filter.2 ⟨member, some⟩)
    simp only [Function.comp_apply, selected]
    cases accepted? tree limits path with
    | none => rfl
    | some file => rfl

/-- Either all spellings of a path that come up can be looked up, or none of them. -/
def SpelledAlike (paths : List Path) : Prop :=
  ∀ first ∈ paths, ∀ second ∈ paths, first.components = second.components →
    FileTree.Fits first → FileTree.Fits second

/-- The files of a selection, whichever way they are spelled, and their sizes. -/
def Selection.entries (selection : Selection) : List (List Path.Component × Nat) :=
  selection.files.map fun file => (file.path.components, file.size)

/-- The same files of the same sizes are selected, and as many refused. -/
structure Alike (first second : Selection) : Prop where
  entries : ∀ entry, entry ∈ first.entries ↔ entry ∈ second.entries
  refused : first.refused = second.refused

theorem admissible_spelled {first second : Path} {size : Nat}
    (same : first.components = second.components)
    (firstEnds : first.EndsInStep) (secondEnds : second.EndsInStep)
    (firstFits : FileTree.Fits first) (secondFits : FileTree.Fits second)
    (admissible : Admissible tree limits first size) : Admissible tree limits second size := by
  have located (ending : FileTree.Ending) : tree.locate ending first = tree.locate ending second :=
    FileTree.locate_spelled ending same firstEnds secondEnds firstFits secondFits
  obtain ⟨unlinked, sized, bounded⟩ := admissible
  simp only [FileTree.isLink, FileTree.fileSize, FileTree.lookup, located] at unlinked sized
  exact ⟨unlinked, sized, bounded⟩

theorem fits_of_admissible {path : Path} {size : Nat}
    (admissible : Admissible tree limits path size) : FileTree.Fits path := by
  obtain ⟨entry, found, _⟩ := bind_eq_ok.1 admissible.sized
  obtain ⟨location, located, _⟩ := FileTree.lookup_eq_ok.1 found
  exact (FileTree.check_path_eq_ok.1 (FileTree.locate_eq_ok.1 located).1).2.2

section Spelled

variable (ends : ∀ path ∈ considered, FileTree.Fits path → path.EndsInStep)
variable (alike : SpelledAlike considered)

include ends alike

theorem mem_entries (selects : Selects tree limits considered selection)
    {components : List Path.Component} {size : Nat} :
    (components, size) ∈ selection.entries ↔
      ∃ path ∈ considered, path.components = components ∧ Admissible tree limits path size := by
  constructor
  · intro listed
    obtain ⟨file, member, same⟩ := List.mem_map.1 listed
    obtain ⟨rfl, rfl⟩ := Prod.mk.inj same
    obtain ⟨first, admissible⟩ := (selects.files file.path file.size).1 member
    exact ⟨file.path, of_first_spelled first, rfl, admissible⟩
  · rintro ⟨path, member, rfl, admissible⟩
    obtain ⟨first, spelled, same⟩ := exists_first_spelled member
    have there := of_first_spelled spelled
    have fits := fits_of_admissible admissible
    have firstFits := alike path member first there same.symm fits
    have judged := admissible_spelled same.symm (ends path member fits)
      (ends first there firstFits) fits firstFits admissible
    exact List.mem_map.2 ⟨⟨first, size⟩, (selects.files first size).2 ⟨spelled, judged⟩,
      by rw [same]⟩

theorem mem_selected (selects : Selects tree limits considered selection)
    {components : List Path.Component} :
    components ∈ selection.files.map (fun file => file.path.components) ↔
      ∃ path ∈ considered, path.components = components ∧
        ∃ size, Admissible tree limits path size := by
  have listed : components ∈ selection.files.map (fun file => file.path.components) ↔
      ∃ size, (components, size) ∈ selection.entries := by
    simp [Selection.entries]
  rw [listed]
  simp only [mem_entries ends alike selects]
  constructor
  · rintro ⟨size, path, member, same, admissible⟩
    exact ⟨path, member, same, size, admissible⟩
  · rintro ⟨path, member, same, size, admissible⟩
    exact ⟨size, path, member, same, admissible⟩

/-- What is selected depends on which paths there are, not on their order. -/
theorem alike_of_same {others : List Path} {other : Selection}
    (same : ∀ path, path ∈ others ↔ path ∈ considered)
    (selects : Selects tree limits considered selection)
    (otherSelects : Selects tree limits others other) : Alike other selection := by
  have otherEnds : ∀ path ∈ others, FileTree.Fits path → path.EndsInStep :=
    fun path member => ends path ((same path).1 member)
  have otherAlike : SpelledAlike others := fun first member second found =>
    alike first ((same first).1 member) second ((same second).1 found)
  constructor
  · rintro ⟨components, size⟩
    rw [mem_entries otherEnds otherAlike otherSelects, mem_entries ends alike selects]
    simp only [same]
  · rw [otherSelects.refused, selects.refused]
    apply List.Perm.length_eq
    rw [List.perm_ext_iff_of_nodup ((OrderedSet.ofList _).distinct.filter _)
      ((OrderedSet.ofList _).distinct.filter _)]
    intro components
    simp only [List.mem_filter, decide_eq_true_eq, mem_selected otherEnds otherAlike otherSelects,
      mem_selected ends alike selects, ← OrderedSet.mem_iff_mem_to_list, OrderedSet.mem_of_list,
      List.mem_map, same]

theorem entries_of_fewer {fewer : List Path} {other : Selection}
    (subset : ∀ path ∈ fewer, path ∈ considered)
    (selects : Selects tree limits considered selection)
    (otherSelects : Selects tree limits fewer other) :
    ∀ entry ∈ other.entries, entry ∈ selection.entries := by
  rintro ⟨components, size⟩ member
  have otherEnds : ∀ path ∈ fewer, FileTree.Fits path → path.EndsInStep :=
    fun path member => ends path (subset path member)
  have otherAlike : SpelledAlike fewer := fun first member second found =>
    alike first (subset first member) second (subset second found)
  obtain ⟨path, found, same, admissible⟩ :=
    (mem_entries otherEnds otherAlike otherSelects).1 member
  exact (mem_entries ends alike selects).2 ⟨path, subset path found, same, admissible⟩

end Spelled

theorem mem_candidates (expanded : patterns.mapM (Glob.expand tree) = .ok found) {path : Path} :
    path ∈ candidates tree compiled found ↔
      (∃ pattern ∈ patterns, ∃ paths, Glob.expand tree pattern = .ok paths ∧ path ∈ paths) ∧
        isPassedOver tree compiled path = false := by
  rw [candidates, List.mem_filter, List.mem_flatten, Bool.not_eq_true']
  simp only [mem_of_map_m expanded]
  apply and_congr_left
  intro _
  constructor
  · rintro ⟨paths, ⟨pattern, listed, here⟩, member⟩
    exact ⟨pattern, listed, paths, here, member⟩
  · rintro ⟨pattern, listed, paths, here, member⟩
    exact ⟨paths, ⟨pattern, listed, here⟩, member⟩

theorem candidate_ends (proper : tree.ProperNames)
    (expanded : patterns.mapM (Glob.expand tree) = .ok found) :
    ∀ path ∈ candidates tree compiled found, FileTree.Fits path → path.EndsInStep := by
  intro path member fits
  obtain ⟨⟨pattern, _, paths, here, there⟩, kept⟩ := (mem_candidates expanded).1 member
  have noDirectory : tree.isDirectory path = false := (Bool.or_eq_false_iff.1 kept).2
  rcases Glob.expand_ends proper here path there with stands | long | ends
  · exact nomatch stands.symm.trans noDirectory
  · exact absurd fits long
  · exact ends

theorem candidates_of_more {more : List Text} {others : List Glob.Pattern}
    (subset : ∀ entry ∈ exclude, entry ∈ more)
    (excluded : exclude.mapM Glob.compile = .ok compiled)
    (othersExcluded : more.mapM Glob.compile = .ok others) :
    ∀ path ∈ candidates tree others found, path ∈ candidates tree compiled found := by
  intro path member
  rw [candidates, List.mem_filter, isPassedOver, Bool.not_eq_true', Bool.or_eq_false_iff,
    List.any_eq_false] at member ⊢
  obtain ⟨listed, kept, noDirectory⟩ := member
  refine ⟨listed, fun pattern there => kept pattern ?_, noDirectory⟩
  obtain ⟨entry, known, here⟩ := (mem_of_map_m excluded pattern).1 there
  exact (mem_of_map_m othersExcluded pattern).2 ⟨entry, subset entry known, here⟩

/-- How often and in what order the patterns come does not matter, and more exclusions only take
files away. -/
structure Settled (tree : FileTree) (patterns exclude : List Text) (limits : Limits)
    (selection : Selection) : Prop where
  order : ∀ others, (∀ pattern, pattern ∈ others ↔ pattern ∈ patterns) →
    ∃ other, (select tree others exclude limits).result = .ok other ∧ Alike other selection
  exclude : ∀ more, (∀ entry ∈ exclude, entry ∈ more) →
    (∀ entry ∈ more, ∃ pattern, Glob.compile entry = .ok pattern) →
      ∃ other, (select tree patterns more limits).result = .ok other ∧
        ∀ entry ∈ other.entries, entry ∈ selection.entries

theorem settled_of_selects (proper : tree.ProperNames)
    (excluded : exclude.mapM Glob.compile = .ok compiled)
    (expanded : patterns.mapM (Glob.expand tree) = .ok found)
    (alike : SpelledAlike (candidates tree compiled found))
    (selects : Selects tree limits (candidates tree compiled found) selection) :
    Settled tree patterns exclude limits selection where
  order := by
    intro others same
    obtain ⟨otherFound, otherExpanded⟩ := map_m_success fun pattern listed =>
      of_map_m expanded pattern ((same pattern).1 listed)
    obtain ⟨other, selected, follows⟩ := @select_follows tree others exclude limits compiled
      otherFound excluded otherExpanded
    refine ⟨other, selected, ?_⟩
    refine alike_of_same (candidate_ends proper expanded) alike ?_ selects
      (selects_of_follows follows)
    intro path
    rw [mem_candidates expanded, mem_candidates otherExpanded]
    simp only [same]
  exclude := by
    intro more subset compiles
    obtain ⟨others, othersExcluded⟩ := map_m_success compiles
    obtain ⟨other, selected, follows⟩ := @select_follows tree patterns more limits others
      found othersExcluded expanded
    exact ⟨other, selected, entries_of_fewer (candidate_ends proper expanded) alike
      (candidates_of_more subset excluded othersExcluded) selects (selects_of_follows follows)⟩

/-- The files that are collected are the admissible ones among the paths that the patterns find,
exclusions and directories apart. Unless a path is found both in a spelling that can be looked up
and in one that is too long for that, the order of the patterns does not matter and no file comes
in through an exclusion. -/
theorem collect_selects :
    (WellFormed patterns exclude →
      ∃ compiled found selection, exclude.mapM Glob.compile = .ok compiled ∧
        patterns.mapM (Glob.expand tree) = .ok found ∧
        (select tree patterns exclude limits).result = .ok selection ∧
        (collect tree patterns exclude limits).result = .ok selection.files ∧
        Selects tree limits (candidates tree compiled found) selection ∧
        (tree.ProperNames → SpelledAlike (candidates tree compiled found) →
          Settled tree patterns exclude limits selection)) ∧
      (¬WellFormed patterns exclude →
        ∃ fault, (collect tree patterns exclude limits).result = .error (.pattern fault)) := by
  refine ⟨fun wellFormed => ?_, collect_fault⟩
  obtain ⟨compiled, found, excluded, expanded⟩ := (well_formed_iff tree).1 wellFormed
  obtain ⟨selection, selected, follows⟩ := @select_follows tree patterns exclude limits compiled
    found excluded expanded
  have selects := selects_of_follows follows
  refine ⟨compiled, found, selection, excluded, expanded, selected, ?_, selects,
    fun proper alike => settled_of_selects proper excluded expanded alike selects⟩
  rw [collect_result, selected]
  rfl

/-- One file found in two spellings. -/
theorem collect_selects_spellings :
    ∃ selection,
      (collect linkedDirectory [['d', '/', '.', '/', '*'], ['d', '/', '*']] [] .default).result =
        .ok selection.files ∧
      Selects linkedDirectory .default [⟨['d', '/', '.', '/', 'a']⟩, ⟨['d', '/', 'a']⟩] selection ∧
      Settled linkedDirectory [['d', '/', '.', '/', '*'], ['d', '/', '*']] [] .default
        selection := by
  have proper : linkedDirectory.ProperNames := by
    unfold FileTree.ProperNames
    decide
  have expanded : [['d', '/', '.', '/', '*'], ['d', '/', '*']].mapM (Glob.expand linkedDirectory) =
      .ok [[⟨['d', '/', '.', '/', 'a']⟩], [⟨['d', '/', 'a']⟩]] := by
    have stands : linkedDirectory.isDirectoryAt [['w'], ['d']] = true := by decide
    have direct : Glob.Reaches linkedDirectory ['d'] [['w'], ['d']] :=
      Glob.reaches_name rfl rfl rfl stands
        (by decide : Text.byteSize ['d'] ≤ FileTree.maxPathSize)
    have again : Glob.Reaches linkedDirectory ['d', '/', '.'] [['w'], ['d']] :=
      Glob.reaches_piece direct rfl rfl stands
        (by decide : Text.byteSize ['d', '/', '.'] ≤ FileTree.maxPathSize)
    exact map_m_eq_ok.2
      (.cons (expand_linked_directory again) (.cons (expand_linked_directory direct) .nil))
  obtain ⟨compiled, found, selection, excluded, same, _, collected, selects, settled⟩ :=
    (@collect_selects linkedDirectory [['d', '/', '.', '/', '*'], ['d', '/', '*']] []
      .default).1 ((well_formed_iff linkedDirectory).2 ⟨_, _, rfl, expanded⟩)
  have none : ([] : List Text).mapM Glob.compile = .ok [] := rfl
  obtain rfl := Except.ok.inj (none.symm.trans excluded)
  obtain rfl := Except.ok.inj (expanded.symm.trans same)
  have both : candidates linkedDirectory []
      [[⟨['d', '/', '.', '/', 'a']⟩], [⟨['d', '/', 'a']⟩]] =
        [⟨['d', '/', '.', '/', 'a']⟩, ⟨['d', '/', 'a']⟩] := by
    decide +kernel
  rw [both] at selects settled
  refine ⟨selection, collected, selects, settled proper ?_⟩
  intro first _ second member _ _
  rcases List.mem_cons.1 member with rfl | last
  · exact (by decide : Text.byteSize ['d', '/', '.', '/', 'a'] ≤ FileTree.maxPathSize)
  · rw [List.mem_singleton.1 last]
    exact (by decide : Text.byteSize ['d', '/', 'a'] ≤ FileTree.maxPathSize)

/-- Of two spellings of a path the one that is found first decides. -/
theorem collect_two_spellings {first second : Path} (same : first.components = second.components)
    (expanded : patterns.mapM (Glob.expand tree) = .ok [[first], [second]])
    (firstNoDirectory : tree.isDirectory first = false)
    (secondNoDirectory : tree.isDirectory second = false) :
    (collect tree patterns [] limits).result = .ok (accepted? tree limits first).toList := by
  obtain ⟨selection, selected, follows⟩ := @select_follows tree patterns [] limits []
    [[first], [second]] rfl expanded
  have both : firsts (candidates tree [] [[first], [second]]) = [first] := by
    simp [candidates, isPassedOver, firstNoDirectory, secondNoDirectory, firsts, Path.same, same]
  rw [collect_result, selected, Except.map, follows.files, both, List.filterMap_cons,
    List.filterMap_nil]
  cases accepted? tree limits first with
  | none => rfl
  | some file => rfl

/-- As long as a name may be. -/
def longName : Text := List.replicate 255 'x'

def fileName : Text := List.replicate 213 'y'

/-- Into the directory, and as often as wanted out of it and in again. -/
def detour : Nat → Text
  | 0 => longName
  | rounds + 1 => (detour rounds ++ '/' :: Path.dots) ++ '/' :: longName

/-- A directory with a long name, and a file in it. -/
def longNames : FileTree :=
  ⟨[['w']], [([['w']], .directory), ([['w'], longName], .directory),
    ([['w'], longName, fileName], .file 0)], [[]]⟩

theorem size_replicate (count : Nat) (character : Char) :
    Text.byteSize (List.replicate count character) = count * character.utf8Size := by
  induction count with
  | zero => exact (Nat.zero_mul _).symm
  | succ count induction =>
      rw [List.replicate_succ, Text.byteSize, induction, Nat.succ_mul, Nat.add_comm]

theorem size_below (text piece : Text) :
    Text.byteSize (text ++ '/' :: piece) = Text.byteSize text + 1 + Text.byteSize piece := by
  rw [Text.byte_size_append, Text.byteSize, Nat.add_assoc]
  rfl

theorem size_long_name : Text.byteSize longName = 255 := size_replicate 255 'x'

theorem size_file_name : Text.byteSize fileName = 213 := size_replicate 213 'y'

theorem size_detour (rounds : Nat) : Text.byteSize (detour rounds) = 255 + 259 * rounds := by
  have dots : Text.byteSize Path.dots = 2 := rfl
  induction rounds with
  | zero => exact size_long_name
  | succ rounds induction =>
      rw [detour, size_below, size_below, induction, size_long_name, dots]
      omega

theorem clean_replicate {count : Nat} {character : Char} (some : count ≠ 0)
    (clean : Glob.isClean [character] = true) :
    Glob.isClean (List.replicate count character) = true := by
  simpa [Glob.isClean, some] using clean

theorem clean_long_name : Glob.isClean longName = true := clean_replicate (by decide) (by decide)

theorem clean_file_name : Glob.isClean fileName = true := clean_replicate (by decide) (by decide)

theorem long_name_entry : longNames.entry? [['w'], longName] = some .directory := by
  simp [FileTree.entry?, longNames]

theorem file_entry : longNames.entry? [['w'], longName, fileName] = some (.file 0) := by
  simp [FileTree.entry?, longNames]

theorem long_name_stands : longNames.isDirectoryAt [['w'], longName] = true := by
  rw [FileTree.isDirectoryAt, long_name_entry]
  rfl

theorem working_stands : longNames.isDirectoryAt [['w']] = true := by
  simp [FileTree.isDirectoryAt, FileTree.entry?, longNames]

theorem long_name_ahead : longNames.stride [['w']] longName = .go [['w'], longName] := by
  rw [FileTree.stride_name working_stands rfl, size_long_name, if_neg (by decide),
    FileTree.strideTo, List.singleton_append, long_name_entry]

theorem file_name_ahead :
    longNames.stride [['w'], longName] fileName = .go [['w'], longName, fileName] := by
  rw [FileTree.stride_name long_name_stands rfl, size_file_name, if_neg (by decide),
    FileTree.strideTo, List.cons_append, List.singleton_append, file_entry]

theorem long_name_fits : FileTree.Fits ⟨longName⟩ := by
  rw [FileTree.Fits, size_long_name]
  decide

theorem reaches_detour (rounds : Nat) (few : rounds ≤ 14) :
    Glob.Reaches longNames (detour rounds) [['w'], longName] := by
  induction rounds with
  | zero =>
      exact Glob.reaches_name clean_long_name rfl long_name_ahead long_name_stands long_name_fits
  | succ rounds induction =>
      have up : longNames.stride [['w'], longName] Path.dots = .go [['w']] := by
        rw [FileTree.stride, long_name_stands]
        rfl
      have dotsClean : Glob.isClean Path.dots = true := rfl
      have size := size_detour (rounds + 1)
      have fits : FileTree.Fits ⟨detour (rounds + 1)⟩ := by
        rw [FileTree.Fits, size, FileTree.maxPathSize]
        omega
      have outsideFits : FileTree.Fits ⟨detour rounds ++ '/' :: Path.dots⟩ := by
        rw [detour, size_below] at size
        rw [FileTree.Fits, FileTree.maxPathSize]
        dsimp only
        omega
      have outside := Glob.reaches_piece (induction (by omega)) dotsClean up working_stands
        outsideFits
      exact Glob.reaches_piece outside clean_long_name long_name_ahead long_name_stands fits

theorem detour_not_empty : detour 14 ≠ [] := by
  intro empty
  have size := size_detour 14
  rw [empty] at size
  exact nomatch size

/-- The file, by a path that is as long as a path may be. -/
def shortSpelling : Path := ⟨detour 14 ++ '/' :: fileName⟩

/-- The same path with a dot on the way, which is too long. -/
def longSpelling : Path := ⟨detour 14 ++ '/' :: Path.dot ++ '/' :: fileName⟩

theorem spellings_same : longSpelling.components = shortSpelling.components :=
  Path.components_dot detour_not_empty fileName

theorem short_fits : FileTree.Fits shortSpelling := by
  rw [FileTree.Fits, shortSpelling, size_below, size_detour, size_file_name]
  decide

theorem long_not_fits : ¬FileTree.Fits longSpelling := by
  have size : Text.byteSize Path.dot = 1 := rfl
  rw [FileTree.Fits, longSpelling, size_below, size_below, size_detour, size_file_name, size]
  decide

theorem short_located (ending : FileTree.Ending) :
    longNames.locate ending shortSpelling = .ok [['w'], longName, fileName] := by
  have reaches := reaches_detour 14 (le_refl _)
  have fits := short_fits
  rw [shortSpelling, ← Glob.join_of_reaches reaches fileName] at fits ⊢
  obtain ⟨_, _, noSlash, noZero⟩ := Glob.free_of_clean clean_file_name
  exact FileTree.locate_join reaches.located file_name_ahead noSlash noZero fits

theorem short_accepted :
    accepted? longNames .default shortSpelling = some ⟨shortSpelling, 0⟩ := by
  rw [accepted_eq_some]
  refine ⟨rfl, fun _ => ?_, ?_, by decide⟩
  · rw [FileTree.isLink, short_located]
    dsimp only
    rw [file_entry]
  · rw [FileTree.fileSize, FileTree.lookup, short_located]
    simp only [bind, Except.bind, file_entry]
    rfl

theorem long_not_accepted : accepted? longNames .default longSpelling = none := by
  rw [Option.eq_none_iff_forall_ne_some]
  intro file accepted
  exact long_not_fits (fits_of_admissible (accepted_eq_some.1 accepted).2)

theorem short_no_directory : longNames.isDirectory shortSpelling = false := by
  rw [FileTree.isDirectory, FileTree.lookup, short_located]
  simp only [bind, Except.bind, file_entry]

theorem long_no_directory : longNames.isDirectory longSpelling = false := by
  rw [Bool.eq_false_iff]
  intro stands
  obtain ⟨location, located, _⟩ := FileTree.is_directory_iff.1 stands
  exact long_not_fits (FileTree.check_path_eq_ok.1 (FileTree.locate_eq_ok.1 located).1).2.2

theorem names_found : longNames.names [['w'], longName] = [fileName] := by
  simp [FileTree.names, longNames]

/-- A star behind a text that leads to the directory finds the file. -/
theorem expand_to_file {text : Text} (reaches : Glob.Reaches longNames text [['w'], longName]) :
    Glob.expand longNames (Glob.inside text) = .ok [⟨text ++ '/' :: fileName⟩] := by
  have named : ∀ name ∈ longNames.names [['w'], longName],
      FileTree.isSpecial name = false ∧ '/' ∉ name := by
    intro name member
    rw [names_found, List.mem_singleton] at member
    rw [member]
    exact ⟨rfl, (Glob.free_of_clean clean_file_name).2.2.1⟩
  rw [Glob.expand_inside reaches named, names_found, List.map_singleton,
    Glob.below_of_reaches reaches]

theorem short_found :
    Glob.expand longNames (Glob.inside (detour 14)) = .ok [shortSpelling] :=
  expand_to_file (reaches_detour 14 (le_refl _))

theorem long_found :
    Glob.expand longNames (Glob.inside (detour 14 ++ '/' :: Path.dot)) = .ok [longSpelling] := by
  have clean : Glob.isClean Path.dot = true := rfl
  have ahead := FileTree.stride_nothing FileTree.nothing_dot long_name_stands
  have fits : FileTree.Fits ⟨detour 14 ++ '/' :: Path.dot⟩ := by
    have size : Text.byteSize Path.dot = 1 := rfl
    rw [FileTree.Fits, size_below, size_detour, size]
    decide
  exact expand_to_file
    (Glob.reaches_piece (reaches_detour 14 (le_refl _)) clean ahead long_name_stands fits)

theorem proper_long_names : longNames.ProperNames := by
  have working : FileTree.isNothing ['w'] = false ∧ '/' ∉ ['w'] := by decide
  have directory : FileTree.isNothing longName = false ∧ '/' ∉ longName :=
    ⟨rfl, (Glob.free_of_clean clean_long_name).2.2.1⟩
  have file : FileTree.isNothing fileName = false ∧ '/' ∉ fileName :=
    ⟨rfl, (Glob.free_of_clean clean_file_name).2.2.1⟩
  simp [FileTree.ProperNames, longNames, working, directory, file]

/-- A path that is found in a spelling that is too long is refused and not looked at again, so
the order of the patterns decides whether a file is selected. -/
theorem collect_order_decides :
    ¬∀ (tree : FileTree) (patterns others exclude : List Text) (limits : Limits)
        (files otherFiles : List ContentFile), tree.ProperNames → patterns.Perm others →
      (collect tree patterns exclude limits).result = .ok files →
        (collect tree others exclude limits).result = .ok otherFiles →
          ∀ file ∈ otherFiles, ∃ same ∈ files, same.path.components = file.path.components := by
  intro claim
  have longFirst := map_m_eq_ok.2 (.cons long_found (.cons short_found .nil))
  have shortFirst := map_m_eq_ok.2 (.cons short_found (.cons long_found .nil))
  have first := @collect_two_spellings _ _ .default _ _ spellings_same longFirst
    long_no_directory short_no_directory
  have second := @collect_two_spellings _ _ .default _ _ spellings_same.symm shortFirst
    short_no_directory long_no_directory
  rw [long_not_accepted] at first
  rw [short_accepted] at second
  obtain ⟨_, member, _⟩ := claim longNames _ _ [] .default _ _ proper_long_names
    (.swap _ _ []) first second _ (List.mem_singleton_self _)
  exact absurd member List.not_mem_nil

end StylePurge.Content
