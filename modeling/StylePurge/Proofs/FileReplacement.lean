import StylePurge.Proofs.StandingTree

/-!
Replacing a file through a second file beside it. Success changes the content of the second
file, the place where it opens, its name and the target and nothing else; a link at the name
of the second file is followed when the file is written, and moved itself. A failure either
changes nothing or leaves the second file where it was opened, with a front of the content
in it. Unless it is the machine that fails, the content is whole then and the path names
nothing that could be read.
-/

namespace StylePurge.Change

open FileTree

variable {machine : Machine} {tree before after written : FileTree} {path : Path}
variable {content bytes : Text.Bytes} {opened : Location} {number : Nat} {old new : Target}

/-- The name of the second file is longer than the name that it is made for. -/
theorem beside_apart (named : tree.target (besidePath path) = .ok old)
    (unslashed : old.slashed = false) (aimed : Replaceable before path new) :
    old.location ≠ new.location := by
  obtain ⟨front, beside⟩ := beside_pieces path
  obtain ⟨around, pieces⟩ := pieces_of_target named unslashed
  obtain ⟨outer, own⟩ := pieces_of_target aimed.found aimed.unslashed
  have last : old.piece = besideName path := by
    rw [pieces] at beside
    exact List.singleton_inj.1 (List.append_inj_right' beside rfl)
  have name : path.fileName? = some new.piece := Path.file_name_of_pieces own aimed.ordinary
  have longer : old.piece.length = new.piece.length + 4 := by
    rw [last, besideName, name, Option.getD_some, List.length_append]
    rfl
  intro same
  have ends : old.piece = new.piece := List.singleton_inj.1 (List.append_inj_right' same rfl)
  rw [ends] at longer
  omega

/-- The second file stands open, with some bytes in it, at its name or behind a link there. -/
structure StandsBeside (tree : FileTree) (path : Path) (bytes : Text.Bytes) (opened : Location)
    (old : Target) (number : Nat) (written : FileTree) : Prop where
  located : tree.locate .create (besidePath path) = .ok opened
  landed : Landing tree opened
  named : Replaceable tree (besidePath path) old
  direct : opened = old.location ∨ ∃ link, tree.entry? old.location = some (.link link)
  opens : Opens tree opened number written
  content : written.content number = .ok bytes

theorem stands_beside (standing : tree.Standing) {emptied : FileTree}
    (creates : Creates machine (besidePath path) tree opened number emptied)
    (bytes : Text.Bytes) :
    ∃ old, StandsBeside tree path bytes opened old number (emptied.filled number bytes) := by
  have landed := landing_of_locate standing (by decide) creates.located
  obtain ⟨old, named, direct⟩ :=
    replaceable_of_locate standing creates.located (no_directory_of_opens creates.opens)
  refine ⟨old, creates.located, landed, named, direct, opens_filled creates.opens bytes, ?_⟩
  exact content_filled (stored_of_opens standing creates.opens)

section Beside

variable (stands : StandsBeside tree path bytes opened old number written)
include stands

theorem standing_beside (standing : tree.Standing) : written.Standing :=
  standing_of_opens standing stands.opens stands.landed

theorem replaceable_beside {destination : Path} {target : Target} :
    Replaceable written destination target ↔ Replaceable tree destination target := by
  have same := directory_of_opens stands.opens target.location
  constructor
  · rintro ⟨found, ordinary, fits, unslashed, noDirectory⟩
    rw [same] at noDirectory
    exact ⟨target_before_opens stands.opens found, ordinary, fits, unslashed, noDirectory⟩
  · rintro ⟨found, ordinary, fits, unslashed, noDirectory⟩
    rw [← same] at noDirectory
    refine ⟨?_, ordinary, fits, unslashed, noDirectory⟩
    exact target_after_opens stands.opens found

end Beside

/-- What stood at one location stands at another. The first is free then, unless the same
stood at both before. -/
structure Moved (before : FileTree) (old new : Location) (entry : Entry) (after : FileTree) :
    Prop where
  working : after.working = before.working
  contents : after.contents = before.contents
  others : ∀ location, location ≠ old → location ≠ new →
    after.entry? location = before.entry? location
  there : after.entry? new = some entry
  vacated : after.entry? old = none ∨ before.entry? new = some entry ∧ after = before

theorem moved_of_renamed (standing : written.Standing) (machine : Machine) (entry : Entry)
    (noDirectory : written.isDirectoryAt old.location = false)
    (apart : old.location ≠ new.location) :
    Moved written old.location new.location entry
      (if written.isOne machine entry old.location new.location then written
        else (written.remove old.location).place new.location entry) := by
  split
  · rename_i one
    have both : written.entry? new.location = some entry := by
      unfold isOne at one
      rw [Bool.and_eq_true, beq_iff_eq] at one
      exact one.1
    exact ⟨rfl, rfl, fun _ _ _ => rfl, both, .inr ⟨both, rfl⟩⟩
  · refine ⟨by simp, by simp, ?_, entry_place (location_ne_nil new), .inl ?_⟩
    · intro location fromOld fromNew
      rw [entry_place_other fromNew]
      by_cases below : old.location <+: location
      · have nonempty : location ≠ [] := by
          rintro rfl
          exact location_ne_nil old (List.prefix_nil.1 below)
        rw [entry_remove_below below nonempty]
        -- Nothing stood there, or the name of the second file would be a directory.
        cases other : written.entry? location with
        | none => rfl
        | some entry =>
            have above := directory_above standing other below fromOld.symm
            exact nomatch above.symm.trans noDirectory
      · exact entry_remove_other below
    · rw [entry_place_other apart]
      exact entry_remove_below (List.prefix_refl old.location) (location_ne_nil old)

/-- What replacing a file can do: nothing, or open the second file and fail because the
machine refuses something or because the name cannot be moved, or move it. -/
inductive Replacing (machine : Machine) (path : Path) (content : Text.Bytes) (tree : FileTree) :
    Except Fault Unit × FileTree → Prop where
  | unopened (fault : Fault)
      (cause : create machine (besidePath path) tree = (.error fault, tree)) :
      Replacing machine path content tree (.error fault, tree)
  | refused {bytes : Text.Bytes} {opened : Location} {old : Target} {number : Nat}
      {written : FileTree} (reason : Text)
      (stands : StandsBeside tree path bytes opened old number written)
      (isFront : bytes <+: content)
      (whole : (∀ tree, machine.refusal? (.write number content) tree = none) →
        bytes = content)
      (cause : ∃ call left, machine.refusal? call left = some reason) :
      Replacing machine path content tree (.error (.device reason), written)
  | stuck {opened : Location} {old : Target} {number : Nat} {written : FileTree} (fault : Fault)
      (stands : StandsBeside tree path content opened old number written)
      (cause : written.renamed machine (besidePath path) path = .error fault) :
      Replacing machine path content tree (.error fault, written)
  | moved {opened : Location} {old new : Target} {number : Nat} {written after : FileTree}
      {entry : Entry} (stands : StandsBeside tree path content opened old number written)
      (aimed : Replaceable tree path new)
      (held : written.entry? old.location = some entry)
      (moved : Moved written old.location new.location entry after) :
      Replacing machine path content tree (.ok (), after)

theorem rename_replacing (standing : tree.Standing)
    (stands : StandsBeside tree path content opened old number written) :
    Replacing machine path content tree (rename machine (besidePath path) path written) := by
  unfold rename
  rcases call_update_cases machine (.rename (besidePath path) path)
      (·.renamed machine (besidePath path) path) written with
    ⟨after, renamed, result⟩ | ⟨fault, result, cause⟩
  · rw [result]
    obtain ⟨source, new, entry, found, aimed, held, same⟩ := renamed_eq_ok.1 renamed
    have there := target_before_opens stands.opens found
    obtain rfl := Except.ok.inj (there.symm.trans stands.named.found)
    have movable := (replaceable_beside stands).1 aimed
    have apart := beside_apart stands.named.found stands.named.unslashed movable
    have noDirectory := (directory_of_opens stands.opens source.location).trans
      stands.named.noDirectory
    have moved :=
      moved_of_renamed (standing_beside stands standing) machine entry noDirectory apart
    rw [same] at moved
    exact .moved stands movable held moved
  · rw [result]
    rcases cause with ⟨reason, refused, rfl⟩ | stuck
    · exact .refused reason stands (List.prefix_refl content) (fun _ => rfl) ⟨_, _, refused⟩
    · exact .stuck fault stands stuck

theorem replacing (machine : Machine) (path : Path) (content : Text.Bytes)
    (standing : tree.Standing) :
    Replacing machine path content tree (replaceFile machine path content tree) := by
  rw [replace_file_eq]
  have writing := write_file_writing machine (besidePath path) content tree
  generalize writeFile machine (besidePath path) content tree = attempt at writing ⊢
  cases writing with
  | unopened fault cause => exact .unopened fault cause
  | brokenOff reason front creates isFront whole cause =>
      obtain ⟨old, stands⟩ := stands_beside standing creates front
      exact .refused reason stands isFront (fun accepted => whole (accepted _)) cause
  | done creates =>
      obtain ⟨old, stands⟩ := stands_beside standing creates content
      exact rename_replacing standing stands

section Moved

variable {entry : Entry}
variable (stands : StandsBeside tree path content opened old number written)
variable (moved : Moved written old.location new.location entry after)
include stands

include moved

end Moved

-- A second name of some file at the name of the second file: the content shows there too.
example :
    let tree : FileTree :=
      ⟨[], [([['p']], .file 0), ([['o', '.', 't', 'm', 'p']], .file 0)], [[1]]⟩
    (replaceFile .willing ⟨['o']⟩ [2] tree).1 = .ok () ∧
      (replaceFile .willing ⟨['o']⟩ [2] tree).2.readBytes ⟨['p']⟩ = .ok [2] :=
  ⟨by rfl, by rfl⟩

-- A link to the target at the name of the second file becomes a link to itself.
example :
    let tree : FileTree :=
      ⟨[], [([['o']], .file 0), ([['o', '.', 't', 'm', 'p']], .link ⟨['o']⟩)], [[1]]⟩
    (replaceFile .willing ⟨['o']⟩ [2] tree).1 = .ok () ∧
      (replaceFile .willing ⟨['o']⟩ [2] tree).2.readBytes ⟨['o']⟩ = .error .tooManyLinks :=
  ⟨by rfl, by rfl⟩

-- A link at the target is replaced also when the path goes through it.
example :
    let tree : FileTree := ⟨[], [([['e']], .directory), ([['o']], .link ⟨['e']⟩)], []⟩
    let path : Path := ⟨['o', '/', '.', '.', '/', 'o']⟩
    (replaceFile .willing path [2] tree).1 = .ok () ∧
      (replaceFile .willing path [2] tree).2.readBytes path = .error .notDirectory :=
  ⟨by rfl, by rfl⟩

end StylePurge.Change
