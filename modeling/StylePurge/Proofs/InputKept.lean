import StylePurge.Proofs.PathTargets
import StylePurge.Proofs.PurgeRun

/-!
What a run leaves of its input. Replacing a file changes the content of the second file
and the entries at two locations at most; every other entry stays, so whatever is looked up
past these is found as it was. The check of a request compares paths as they are written
and cannot tell whether the second file or one of these locations belongs to the input.
-/

namespace StylePurge

namespace FileTree

/-- The locations whose entries a renaming changes; none if it fails, or if both names are
names of one file. -/
def movedBetween (tree : FileTree) (machine : Machine) (source destination : Path) :
    List Location :=
  match tree.target source, tree.target destination,
      Change.rename machine source destination tree with
  | .ok old, .ok new, (.ok _, renamed) =>
      if renamed = tree then [] else [old.location, new.location]
  | _, _, _ => []

end FileTree

namespace Delivery

open FileTree

variable {machine : Machine} {tree prepared : FileTree} {entry : Entry} {path input : Path}
variable {bytes : Text.Bytes}

/-- The file that is opened beside a path to replace the file at the path, by its number. -/
def openedFile? (machine : Machine) (path : Path) (tree : FileTree) : Option Nat :=
  match Change.makeParents machine path tree with
  | (.error _, _) => none
  | (.ok _, prepared) =>
      (Change.create machine (Change.besidePath path) prepared).1.toOption

/-- The locations whose entries change when the file at a path is replaced: the name of the
second file and the place where it is moved to, if it is written and moved. -/
def rewritten (machine : Machine) (path : Path) (content : Text) (tree : FileTree) :
    List Location :=
  match Change.makeParents machine path tree with
  | (.error _, _) => []
  | (.ok _, prepared) =>
      match Change.writeFile machine (Change.besidePath path) (Text.encode content) prepared with
      | (.error _, _) => []
      | (.ok _, written) => written.movedBetween machine (Change.besidePath path) path

theorem write_file_eq (machine : Machine) (path : Path) (content : Text) (tree : FileTree) :
    writeFile machine path content tree =
      match Change.makeParents machine path tree with
      | (.ok _, prepared) => Change.replaceFile machine path (Text.encode content) prepared
      | (.error fault, left) => (.error fault, left) := by
  unfold writeFile
  rw [Change.bind_eq]
  generalize Change.makeParents machine path tree = attempt
  obtain ⟨result, left⟩ := attempt
  cases result with
  | error fault => rfl
  | ok _ => rfl

/-- Bytes in another file leave what can be read, and the way to it. -/
theorem read_of_opens {before after : FileTree} {location : Location} {number : Nat}
    (opens : Opens before location number after) (read : before.readBytes input = .ok bytes)
    (spared : before.lookup input ≠ .ok (.file number)) :
    after.readBytes input = .ok bytes ∧ after.route input = before.route input := by
  obtain ⟨own, found, stored⟩ := read_bytes_eq_ok.1 read
  have agree : Agree before after (before.route input) := by
    intro place member
    obtain ⟨held, holds⟩ := Option.isSome_iff_exists.1 (entry_of_lookup found place member)
    rw [holds, entry_of_opens opens holds]
  obtain ⟨looked, route⟩ := lookup_of_agree opens.working agree
  have apart : own ≠ number := by
    rintro rfl
    exact spared found
  refine ⟨read_bytes_eq_ok.2 ⟨own, looked.trans found, ?_⟩, route⟩
  rw [opens.contents own apart, stored]

/-- A renaming leaves what can be read past the locations that it changes. -/
theorem read_of_rename {written : FileTree} (source destination : Path)
    (read : written.readBytes input = .ok bytes)
    (spared : ∀ place ∈ written.movedBetween machine source destination,
      ∀ location ∈ written.route input, ¬place <+: location) :
    (Change.rename machine source destination written).2.readBytes input = .ok bytes := by
  unfold Change.rename
  rcases Change.call_update_cases machine (.rename source destination)
      (·.renamed machine source destination) written with
    ⟨renamed, success, result⟩ | ⟨fault, result, _⟩
  · rw [result]
    dsimp only
    by_cases same : renamed = written
    · rwa [same]
    obtain ⟨old, new, entry, oldFound, replaceable, _, moved⟩ := renamed_eq_ok.1 success
    split at moved
    · exact absurd moved.symm same
    have between : written.movedBetween machine source destination =
        [old.location, new.location] := by
      unfold movedBetween Change.rename
      simp only [oldFound, replaceable.found, result, if_neg same]
    rw [between] at spared
    have kept : Agree written renamed (written.route input) := by
      intro place member
      have newApart : place ≠ new.location := by
        rintro rfl
        exact spared new.location (by simp) new.location member (List.prefix_refl _)
      rw [← moved, entry_place_other newApart,
        entry_remove_other (spared old.location (by simp) place member)]
    have working : renamed.working = written.working := by
      rw [← moved, working_place, working_remove]
    rw [read_bytes_of_lookup (lookup_of_agree working kept).1, read]
    intro number _
    apply content_of_contents
    rw [← moved, contents_place, contents_remove]
  · rw [result]
    exact read

theorem read_of_replace_file {content : Text.Bytes}
    (read : prepared.readBytes input = .ok bytes)
    (otherFile : ∀ number emptied,
      Change.create machine (Change.besidePath path) prepared = (.ok number, emptied) →
        prepared.lookup input ≠ .ok (.file number))
    (otherPlaces : ∀ written,
      Change.writeFile machine (Change.besidePath path) content prepared = (.ok (), written) →
        ∀ place ∈ written.movedBetween machine (Change.besidePath path) path,
          ∀ location ∈ prepared.route input, ¬place <+: location) :
    (Change.replaceFile machine path content prepared).2.readBytes input = .ok bytes := by
  rw [Change.replace_file_eq]
  have writing :=
    Change.write_file_writing machine (Change.besidePath path) content prepared
  generalize Change.writeFile machine (Change.besidePath path) content prepared = attempt at *
  cases writing with
  | unopened fault cause => exact read
  | brokenOff reason front creates isFront whole cause =>
      exact (read_of_opens (opens_filled creates.opens front) read
        (otherFile _ _ creates.result)).1
  | done creates =>
      obtain ⟨still, route⟩ := read_of_opens (opens_filled creates.opens content) read
        (otherFile _ _ creates.result)
      apply read_of_rename _ _ still
      rw [route]
      exact otherPlaces _ rfl

/-- What replacing the file at a path changes does not belong to the input: the file that is
opened is another file, and the entries that change are not on the way to the input or
above it. -/
structure SparesInput (machine : Machine) (input path : Path) (content : Text)
    (tree : FileTree) : Prop where
  file : ∀ number, openedFile? machine path tree = some number →
    tree.lookup input ≠ .ok (.file number)
  places : ∀ place ∈ rewritten machine path content tree,
    ∀ location ∈ tree.route input, ¬place <+: location

theorem read_of_write_file {content : Text} (read : tree.readBytes input = .ok bytes)
    (spared : SparesInput machine input path content tree) :
    (writeFile machine path content tree).2.readBytes input = .ok bytes := by
  have extended := Change.make_parents_extends machine path tree
  obtain ⟨otherFile, otherPlaces⟩ := spared
  rw [write_file_eq]
  unfold openedFile? at otherFile
  unfold rewritten at otherPlaces
  generalize Change.makeParents machine path tree = attempt at extended otherFile otherPlaces ⊢
  obtain ⟨result, prepared⟩ := attempt
  have ready := read_bytes_of_extends extended read
  cases result with
  | error fault => exact ready
  | ok _ =>
      dsimp only at otherFile otherPlaces ⊢
      obtain ⟨own, found, _⟩ := read_bytes_eq_ok.1 read
      obtain ⟨looked, route⟩ := lookup_of_extends extended found
      apply read_of_replace_file ready
      · intro number emptied created
        rw [looked, ← found]
        exact otherFile number (by rw [created]; rfl)
      · intro written success
        rw [route]
        simpa only [success] using otherPlaces

/-- No file in turn touches the input. -/
def Spares (machine : Machine) (input : Path) : FileTree → List (Path × Text) → Prop
  | _, [] => True
  | tree, (path, content) :: files =>
      SparesInput machine input path content tree ∧
        ∀ written, writeFile machine path content tree = (.ok (), written) →
          Spares machine input written files

/-- Files written in turn keep an input that they spare, also when one of them
cannot be written. -/
theorem read_of_write_files {files : List (Path × Text)}
    (read : tree.readBytes input = .ok bytes) (spared : Spares machine input tree files) :
    (writeFiles machine tree files).2.readBytes input = .ok bytes := by
  induction files generalizing tree with
  | nil => exact read
  | cons file files induction =>
      obtain ⟨path, content⟩ := file
      obtain ⟨first, later⟩ := spared
      have kept := read_of_write_file read first
      rw [writeFiles]
      cases attempt : writeFile machine path content tree with
      | mk result written =>
          rw [attempt] at kept
          cases result with
          | error fault => exact kept
          | ok _ => exact induction kept (later written attempt)

end Delivery

namespace PurgeRequest

open FileTree

variable {request : PurgeRequest} {machine : Machine} {clock : Clock} {tree : FileTree}
variable {outcome : Outcome}

theorem read_of_outcome (success : (request.outcome machine clock tree).result = .ok outcome) :
    ∃ bytes, tree.readBytes request.input = .ok bytes := by
  obtain ⟨_, _, _, css, _, _, read, _⟩ := outcome_eq_ok.1 success
  cases found : tree.readBytes request.input with
  | ok bytes => exact ⟨bytes, rfl⟩
  | error fault =>
      have unread : tree.readText request.input = .error fault := by
        rw [readText, found]
        rfl
      rw [readInput, unread] at read
      cases fault <;> simp at read

/-- A run leaves its input as it was, whether it succeeds or not and whatever the machine
refuses, unless the file that it writes is the input's or an entry that it changes is on the
way to the input or above it. -/
theorem run_keeps_input (request : PurgeRequest) (machine : Machine) (clock : Clock)
    (tree : FileTree)
    (spared : ∀ outcome, (request.outcome machine clock tree).result = .ok outcome →
      request.dryRun = false →
        Delivery.Spares machine request.input tree (request.files outcome)) :
    (request.run machine clock tree).tree.readBytes request.input =
      tree.readBytes request.input := by
  rw [run_tree]
  cases computed : (request.outcome machine clock tree).result with
  | error error => rfl
  | ok outcome =>
      dsimp only
      by_cases dry : request.dryRun = true
      · rw [if_pos dry]
      · rw [if_neg dry]
        obtain ⟨bytes, read⟩ := read_of_outcome computed
        rw [read]
        exact Delivery.read_of_write_files read (spared outcome computed (by simpa using dry))

theorem run_keeps_input_behind_link :
    let css : Text := ['.', 'a', '{', '}', '.', 'b', '{', '}']
    let tree : FileTree :=
      ⟨[['w']], [([['w']], .directory), ([['w'], ['d']], .directory),
        ([['w'], ['d'], ['s']], .file 0), ([['w'], ['i']], .link ⟨['d', '/', 's']⟩)],
        [Text.encode css]⟩
    let request : PurgeRequest :=
      { input := ⟨['i']⟩, output := ⟨['d', '/', 'o']⟩, html := [], exclude := [], classes := [['a']]
        whitelist := none, config := none, report := none, noBanner := false
        allowEmpty := false, dryRun := false, verbose := false, jobs := none }
    let machine : Machine := .willing
    let clock : Clock := ⟨.epoch, 0⟩
    (request.run machine clock tree).outcome.result.toOption.isSome = true ∧
      ((request.run machine clock tree).tree.readBytes request.output).toOption =
        some (Text.encode ['.', 'a', '{', '}', '\n']) ∧
      (request.run machine clock tree).tree.readBytes request.input = .ok (Text.encode css) := by
  intro css tree request machine clock
  have found : tree.lookup request.input = .ok (.file 0) := to_option_eq_some.1 (by decide +kernel)
  have opened : Delivery.openedFile? machine request.output tree = some 1 := by decide +kernel
  have css : ((request.outcome machine clock tree).result.map Outcome.css).toOption =
      some ['.', 'a', '{', '}', '\n'] := by
    decide +kernel
  have spared : ∀ outcome, (request.outcome machine clock tree).result = .ok outcome →
      request.dryRun = false →
        Delivery.Spares machine request.input tree (request.files outcome) := by
    intro outcome computed _
    rw [computed] at css
    have text : outcome.css = ['.', 'a', '{', '}', '\n'] := Option.some.inj css
    have places :
        ∀ place ∈ Delivery.rewritten machine request.output ['.', 'a', '{', '}', '\n'] tree,
          ∀ location ∈ tree.route request.input, ¬place <+: location := by
      decide +kernel
    rw [← text] at places
    refine ⟨⟨fun number other => ?_, places⟩, fun _ _ => trivial⟩
    rw [found, Option.some.inj (other.symm.trans opened)]
    simp
  refine ⟨by decide +kernel, by decide +kernel, ?_⟩
  rw [run_keeps_input request machine clock tree spared]
  rfl

-- A second name of the input beside the output: the file that is opened is the input.
example :
    let tree : FileTree :=
      ⟨[], [([['i']], .file 0), ([['o', '.', 't', 'm', 'p']], .file 0)], [[1]]⟩
    Delivery.openedFile? .willing ⟨['o']⟩ tree = some 0 ∧
      (Delivery.writeFile .willing ⟨['o']⟩ ['x'] tree).2.readBytes ⟨['i']⟩ =
        .ok (Text.encode ['x']) :=
  ⟨by rfl, by rfl⟩

/-- Two spellings of one file pass the check, and the output then replaces the input. -/
theorem run_replaces_input_spelled_otherwise :
    ¬∀ (request : PurgeRequest) (clock : Clock) (tree : FileTree),
      request.inconsistency? = none →
        (request.run .willing clock tree).tree.readBytes request.input =
          tree.readBytes request.input := by
  intro claim
  let tree : FileTree :=
    ⟨[['w']], [([['w']], .directory), ([['w'], ['i', 'n', '.', 'c', 's', 's']], .file 0)],
      [Text.encode ['.', 'a', '{', '}', '.', 'b', '{', '}']]⟩
  let request : PurgeRequest :=
    { input := ⟨['.', '/', 'i', 'n', '.', 'c', 's', 's']⟩
      output := ⟨['i', 'n', '.', 'c', 's', 's']⟩
      html := [], exclude := [], classes := [['a']], whitelist := none, config := none
      report := none, noBanner := false, allowEmpty := false, dryRun := false
      verbose := false, jobs := none }
  have kept := congrArg Except.toOption (claim request ⟨.epoch, 0⟩ tree (by decide +kernel))
  have before : (tree.readBytes request.input).toOption =
      some (Text.encode ['.', 'a', '{', '}', '.', 'b', '{', '}']) := by
    decide +kernel
  have after : ((request.run .willing ⟨.epoch, 0⟩ tree).tree.readBytes
      request.input).toOption = some (Text.encode ['.', 'a', '{', '}', '\n']) := by
    decide +kernel
  rw [before, after] at kept
  exact absurd kept (by decide +kernel)

end PurgeRequest

end StylePurge
