import StylePurge.Proofs.FileReplacement
import StylePurge.Proofs.InputKept

/-!
Changes keep trees as they are on a disk: directories that are made, files that are
written and moved, and whole runs leave every entry in a directory and every file with a
content, also when the machine stops them half way. What is known of one
change in such a tree is therefore known of every change of a run.
-/

namespace StylePurge

namespace FileTree

variable {tree : FileTree}

theorem directory_of_target {path : Path} {target : Target}
    (found : tree.target path = .ok target) : tree.isDirectoryAt target.directory = true := by
  obtain ⟨_, found⟩ := target_eq_ok.1 found
  split at found
  · rw [found]
    rfl
  · exact found.2.1

theorem standing_made_directory (path : Path) (made : FileTree)
    (success : tree.madeDirectory path = .ok made) (standing : tree.Standing) :
    made.Standing := by
  obtain ⟨target, found, _, rfl⟩ := made_directory_placed success
  apply standing_place standing (location_ne_nil target)
  rw [Target.location, List.dropLast_concat]
  exact directory_of_target found

end FileTree

namespace Change

open FileTree

variable {machine : Machine} {tree written after : FileTree} {path : Path}
variable {content : Text.Bytes} {opened : Location} {number : Nat} {old new : Target}
variable {entry : Entry}

/-- What moves is no directory, so nothing that stands in it goes along, and no directory
is replaced. -/
theorem standing_moved (standing : written.Standing) (aimed : Replaceable written path new)
    (held : written.entry? old.location = some entry)
    (noDirectory : written.isDirectoryAt old.location = false)
    (moved : Moved written old.location new.location entry after) : after.Standing := by
  have stays (place : Location) (isDirectory : written.isDirectoryAt place = true) :
      after.isDirectoryAt place = true := by
    have fromOld : place ≠ old.location := by
      rintro rfl
      exact nomatch isDirectory.symm.trans noDirectory
    have fromNew : place ≠ new.location := by
      rintro rfl
      exact nomatch isDirectory.symm.trans aimed.noDirectory
    rwa [directory_of_entry (moved.others place fromOld fromNew)]
  -- What stands now stood at the same place, or it stood at the old name and stands at the
  -- new one.
  have source (location : Location) (other : Entry) (there : after.entry? location = some other) :
      written.entry? location = some other ∨ location = new.location ∧ other = entry := by
    by_cases here : location = new.location
    · rw [here, moved.there] at there
      exact .inr ⟨here, (Option.some.inj there).symm⟩
    · by_cases gone : location = old.location
      · rcases moved.vacated with free | ⟨_, same⟩
        · rw [gone, free] at there
          exact nomatch there
        · rw [same] at there
          exact .inl there
      · rw [moved.others location gone here] at there
        exact .inl there
  constructor
  · intro location other there
    apply stays
    rcases source location other there with stood | ⟨rfl, _⟩
    · exact standing.inside location other stood
    · rw [Target.location, List.dropLast_concat]
      exact directory_of_target aimed.found
  · intro location file there
    rw [moved.contents]
    rcases source location _ there with stood | ⟨_, same⟩
    · exact standing.stored location file stood
    · rw [← same] at held
      exact standing.stored old.location file held

theorem standing_replace_file (machine : Machine) (path : Path) (content : Text.Bytes)
    (standing : tree.Standing) : (replaceFile machine path content tree).2.Standing := by
  have cases := replacing machine path content standing
  generalize replaceFile machine path content tree = result at cases ⊢
  cases cases with
  | unopened fault cause => exact standing
  | refused reason stands isFront whole cause => exact standing_beside stands standing
  | stuck fault stands cause => exact standing_beside stands standing
  | moved stands aimed held moved =>
      have noDirectory := (directory_of_opens stands.opens _).trans stands.named.noDirectory
      exact standing_moved (standing_beside stands standing) ((replaceable_beside stands).2 aimed)
        held noDirectory moved

theorem standing_make_parents (machine : Machine) (path : Path) (standing : tree.Standing) :
    (makeParents machine path tree).2.Standing := by
  apply make_directories_induction _ machine path.parents tree standing
  intro before directory made success earlier
  exact standing_made_directory directory made success earlier

end Change

namespace Delivery

theorem standing_write_file {tree : FileTree} (machine : Machine) (path : Path) (content : Text)
    (standing : tree.Standing) : (writeFile machine path content tree).2.Standing := by
  have prepared := Change.standing_make_parents machine path standing
  rw [write_file_eq]
  cases made : Change.makeParents machine path tree with
  | mk result left =>
      rw [made] at prepared
      cases result with
      | error fault => exact prepared
      | ok _ => exact Change.standing_replace_file machine path (Text.encode content) prepared

theorem standing_write_files {tree : FileTree} (machine : Machine) (files : List (Path × Text))
    (standing : tree.Standing) : (writeFiles machine tree files).2.Standing := by
  induction files generalizing tree with
  | nil => exact standing
  | cons file files induction =>
      obtain ⟨path, content⟩ := file
      have written := standing_write_file machine path content standing
      rw [writeFiles]
      cases attempt : writeFile machine path content tree with
      | mk result left =>
          rw [attempt] at written
          cases result with
          | error fault => exact written
          | ok _ => exact induction written

end Delivery

/-- A run leaves every entry in a directory and every file with a content, whether it
succeeds or not. -/
theorem PurgeRequest.standing_run (request : PurgeRequest) (machine : Machine) (clock : Clock)
    {tree : FileTree} (standing : tree.Standing) :
    (request.run machine clock tree).tree.Standing := by
  rw [run_tree]
  cases (request.outcome machine clock tree).result with
  | error error => exact standing
  | ok outcome =>
      dsimp only
      by_cases dry : request.dryRun = true
      · rwa [if_pos dry]
      · rw [if_neg dry]
        exact Delivery.standing_write_files machine (request.files outcome) standing

end StylePurge
