import Mathlib.Data.List.Basic
import StylePurge.FileTree.Write
import StylePurge.Proofs.PathWalk
import StylePurge.Proofs.TextEncoding

/-!
What a change does to a tree. Making directories only adds entries. Writing to a file
changes the content of that file under all its names and of no other file, and the file
is new or stands where it stood. What can be looked up stays so when something is added,
and a new file is found under its path. All of this holds for every machine.
-/

namespace StylePurge

namespace FileTree

variable {tree before after : FileTree} {location other : Location} {entry : Entry} {path : Path}

theorem entry_of_ne_nil (nonempty : location ≠ []) :
    tree.entry? location =
      (tree.entries.find? fun old => old.1 == location).map Prod.snd := by
  unfold entry?
  rw [if_neg (by simpa using nonempty)]

theorem find_replaced (entries : List (Location × Entry))
    (present : (entries.find? fun old => old.1 == location).isSome = true) :
    (entries.map fun old => if old.1 = location then (location, entry) else old).find?
      (fun old => old.1 == location) = some (location, entry) := by
  induction entries with
  | nil => exact nomatch present
  | cons first rest induction =>
      by_cases here : first.1 = location
      · simp [here]
      · have later : (rest.find? fun old => old.1 == location).isSome = true := by
          simpa only [List.find?_cons, beq_eq_false_iff_ne.2 here] using present
        simp [here, induction later]

theorem find_replaced_other (entries : List (Location × Entry)) (apart : other ≠ location) :
    (entries.map fun old => if old.1 = location then (location, entry) else old).find?
      (fun old => old.1 == other) = entries.find? fun old => old.1 == other := by
  induction entries with
  | nil => rfl
  | cons first rest induction =>
      rw [List.map_cons, List.find?_cons, List.find?_cons, induction]
      by_cases here : first.1 = location
      · have passed : first.1 ≠ other := by
          rw [here]
          exact apart.symm
        simp only [if_pos here, beq_eq_false_iff_ne.2 apart.symm, beq_eq_false_iff_ne.2 passed]
      · simp only [if_neg here]

theorem entry_place (nonempty : location ≠ []) :
    entry? (tree.place location entry) location = some entry := by
  rw [entry_of_ne_nil nonempty, place]
  by_cases present : (tree.entry? location).isSome = true
  · have known := present
    rw [entry_of_ne_nil nonempty, Option.isSome_map] at known
    rw [if_pos present, find_replaced _ known]
    rfl
  · have missing : tree.entries.find? (fun old => old.1 == location) = none := by
      rw [entry_of_ne_nil nonempty, Option.isSome_map] at present
      exact Option.not_isSome_iff_eq_none.1 present
    rw [if_neg present, List.find?_append, missing]
    simp

theorem entry_place_other (apart : other ≠ location) :
    entry? (tree.place location entry) other = tree.entry? other := by
  by_cases root : other = []
  · subst root
    rfl
  rw [entry_of_ne_nil root, entry_of_ne_nil root, place]
  split
  · rw [find_replaced_other _ apart]
  · rw [List.find?_append]
    simp [apart.symm]

theorem entry_remove_other (apart : ¬location <+: other) :
    entry? (tree.remove location) other = tree.entry? other := by
  by_cases root : other = []
  · subst root
    rfl
  rw [entry_of_ne_nil root, entry_of_ne_nil root, remove, List.find?_filter]
  have kept : location.isPrefixOf other = false := by
    rw [Bool.eq_false_iff, ne_eq, List.isPrefixOf_iff_prefix]
    exact apart
  congr 2
  funext old
  by_cases here : old.1 = other
  · simp [here, kept]
  · simp [here]

theorem entry_remove_below (below : location <+: other) (nonempty : other ≠ []) :
    entry? (tree.remove location) other = none := by
  rw [entry_of_ne_nil nonempty, remove, Option.map_eq_none_iff, List.find?_eq_none]
  intro old member
  have kept : (!location.isPrefixOf old.1) = true := (List.mem_filter.1 member).2
  rw [beq_iff_eq]
  rintro rfl
  rw [List.isPrefixOf_iff_prefix.2 below] at kept
  exact nomatch kept

@[simp] theorem working_place : (tree.place location entry).working = tree.working := by
  unfold place
  split <;> rfl

@[simp] theorem working_remove : (tree.remove location).working = tree.working := rfl

@[simp] theorem contents_place : (tree.place location entry).contents = tree.contents := by
  unfold place
  split <;> rfl

@[simp] theorem contents_remove : (tree.remove location).contents = tree.contents := rfl

section Contents

variable {number other : Nat} {bytes content : Text.Bytes}

theorem content_eq_ok : tree.content number = .ok bytes ↔ tree.contents[number]? = some bytes := by
  unfold FileTree.content
  cases tree.contents[number]? with
  | none => simp
  | some held => simp

theorem content_of_contents (same : after.contents[number]? = before.contents[number]?) :
    after.content number = before.content number := by
  rw [FileTree.content, FileTree.content, same]

theorem content_filled (stored : number < tree.contents.length) :
    FileTree.content (tree.filled number bytes) number = .ok bytes := by
  rw [content_eq_ok]
  exact List.getElem?_set_self stored

theorem content_filled_other (apart : other ≠ number) :
    FileTree.content (tree.filled number bytes) other = tree.content other :=
  content_of_contents (List.getElem?_set_ne apart.symm)

theorem content_added :
    FileTree.content (tree.added location bytes) tree.contents.length = .ok bytes := by
  rw [content_eq_ok]
  exact List.getElem?_concat_length

theorem content_added_other (apart : other ≠ tree.contents.length) :
    FileTree.content (tree.added location bytes) other = tree.content other := by
  apply content_of_contents
  change (tree.contents ++ [bytes])[other]? = tree.contents[other]?
  rcases Nat.lt_or_gt_of_ne apart with inside | outside
  · exact List.getElem?_append_left inside
  · have beyond : (tree.contents ++ [bytes]).length ≤ other := by
      rw [List.length_append]
      exact outside
    rw [List.getElem?_eq_none beyond, List.getElem?_eq_none (Nat.le_of_lt outside)]

end Contents

/-- Nothing that was there is gone or changed. -/
structure Extends (before after : FileTree) : Prop where
  working : after.working = before.working
  entries : ∀ location entry, before.entry? location = some entry →
    after.entry? location = some entry
  contents : ∀ number bytes, before.content number = .ok bytes → after.content number = .ok bytes

theorem extends_refl (tree : FileTree) : Extends tree tree :=
  ⟨rfl, fun _ _ held => held, fun _ _ held => held⟩

theorem extends_trans {middle : FileTree} (first : Extends before middle)
    (second : Extends middle after) : Extends before after where
  working := second.working.trans first.working
  entries := by
    intro location entry held
    exact second.entries location entry (first.entries location entry held)
  contents := by
    intro number bytes held
    exact second.contents number bytes (first.contents number bytes held)

theorem entry_place_free {old : Entry} (free : tree.entry? location = none)
    (held : tree.entry? other = some old) :
    entry? (tree.place location entry) other = some old := by
  have apart : other ≠ location := by
    rintro rfl
    rw [free] at held
    exact nomatch held
  rw [entry_place_other apart, held]

theorem extends_place (free : tree.entry? location = none) :
    Extends tree (tree.place location entry) where
  working := working_place
  entries := fun _ _ held => entry_place_free free held
  contents := by
    intro number bytes held
    rw [← held]
    exact content_of_contents (by rw [contents_place])

theorem extends_added (free : tree.entry? location = none) (content : Text.Bytes) :
    Extends tree (tree.added location content) where
  working := working_place
  entries := fun _ _ held => entry_place_free free held
  contents := by
    intro number bytes held
    have stored : number < tree.contents.length :=
      (List.getElem?_eq_some_iff.1 (content_eq_ok.1 held)).1
    rw [content_added_other (Nat.ne_of_lt stored), held]

/-- An extension changes nothing on a route that leads to something. -/
theorem lookup_of_extends (extended : Extends before after)
    (found : before.lookup path = .ok entry) :
    after.lookup path = .ok entry ∧ after.route path = before.route path := by
  rw [← found]
  apply lookup_of_agree extended.working
  intro place member
  obtain ⟨held, holds⟩ := Option.isSome_iff_exists.1 (entry_of_lookup found place member)
  rw [holds]
  exact extended.entries place held holds

theorem read_bytes_of_extends {bytes : Text.Bytes} (extended : Extends before after)
    (read : before.readBytes path = .ok bytes) : after.readBytes path = .ok bytes := by
  obtain ⟨number, found, stored⟩ := read_bytes_eq_ok.1 read
  refine read_bytes_eq_ok.2 ⟨number, ?_, ?_⟩
  · exact (lookup_of_extends extended found).1
  · exact extended.contents number bytes stored

theorem read_text_of_extends {text : Text} (extended : Extends before after)
    (read : before.readText path = .ok text) : after.readText path = .ok text := by
  rw [readText, bind_eq_ok] at read ⊢
  obtain ⟨bytes, held, decoded⟩ := read
  exact ⟨bytes, read_bytes_of_extends extended held, decoded⟩

/-- A path along which a new file can be created leads to the file when it is there. -/
theorem walk_to_new_file {final : Location} {number links : Nat} {start : Location}
    {pieces : List Text} (free : before.entry? final = none)
    (created : after.entry? final = some (.file number))
    (others : ∀ place, place ≠ final → after.entry? place = before.entry? place)
    (arrived : before.walk .create links start pieces = .ok final) :
    after.walk .follow links start pieces = .ok final := by
  have apart {place : Location} {held : Entry} (holds : before.entry? place = some held) :
      after.entry? place = some held := by
    rw [← holds]
    apply others
    rintro rfl
    simp [free] at holds
  -- Whatever the walk comes upon before its last piece was there already, so the new
  -- file changes only the stride that found nothing.
  induction links, start, pieces using walk_induction with
  | done links location =>
      rw [walk_nil] at arrived ⊢
      exact arrived
  | onward links location piece rest onward behind =>
      by_cases directory : before.isDirectoryAt location = true
      case neg =>
        rw [Bool.not_eq_true] at directory
        simp [walk_cons, stride_outside piece directory] at arrived
      have stands : after.isDirectoryAt location = true := by
        rw [isDirectoryAt, beq_iff_eq] at directory ⊢
        exact apart directory
      rw [walk_cons] at arrived ⊢
      rcases stride_forms location piece with looks | ⟨fault, stops⟩ | ⟨next, goes⟩
      · rw [looks before directory, strideTo] at arrived
        rw [looks _ stands, strideTo]
        cases held : before.entry? (location ++ [piece]) with
        | none =>
            simp only [held] at arrived
            split at arrived
            · rename_i last
              obtain rfl := Except.ok.inj arrived
              have noRest : rest = [] := by simpa using last
              rw [created, noRest]
              exact walk_nil
            · simp at arrived
        | some entry =>
            rw [apart held]
            cases entry with
            | file old => exact onward _ (by simpa [held] using arrived)
            | directory => exact onward _ (by simpa [held] using arrived)
            | link target =>
                cases links with
                | zero => simp [held, leap] at arrived
                | succ fewer =>
                    exact behind fewer rfl _ _ (by simpa [held, leap] using arrived)
      · simp [stops before directory] at arrived
      · rw [goes before directory] at arrived
        rw [goes _ stands]
        exact onward next arrived

theorem ne_nil_of_free (free : tree.entry? location = none) : location ≠ [] := by
  rintro rfl
  unfold entry? at free
  simp at free

theorem read_added {text : Text} (found : tree.locate .create path = .ok location)
    (free : tree.entry? location = none) :
    readText (tree.added location (Text.encode text)) path = .ok text := by
  obtain ⟨checked, arrived⟩ := locate_eq_ok.1 found
  have created : entry? (tree.added location (Text.encode text)) location =
      some (.file tree.contents.length) := entry_place (ne_nil_of_free free)
  have walked := walk_to_new_file free created (fun _ apart => entry_place_other apart) arrived
  have same : base (tree.added location (Text.encode text)) path = tree.base path :=
    base_of_working working_place
  have reached : FileTree.lookup (tree.added location (Text.encode text)) path =
      .ok (.file tree.contents.length) :=
    lookup_eq_ok.2 ⟨location, locate_eq_ok.2 ⟨checked, by rw [same]; exact walked⟩, created⟩
  rw [readText, bind_eq_ok]
  exact ⟨_, read_bytes_eq_ok.2 ⟨_, reached, content_added⟩, by rw [Text.decode_encode]⟩

/-- A directory is made where nothing stood. -/
theorem made_directory_placed {made : FileTree} (success : tree.madeDirectory path = .ok made) :
    ∃ target, tree.target path = .ok target ∧ tree.entry? target.location = none ∧
      made = tree.place target.location .directory := by
  rw [madeDirectory, bind_eq_ok] at success
  obtain ⟨target, found, success⟩ := success
  split at success
  · exact nomatch success
  split at success
  · exact nomatch success
  split at success
  · exact nomatch success
  · rename_i free
    exact ⟨target, found, by simpa using free, (Except.ok.inj success).symm⟩

theorem made_directory_extends {made : FileTree} (success : tree.madeDirectory path = .ok made) :
    Extends tree made := by
  obtain ⟨target, _, free, rfl⟩ := made_directory_placed success
  exact extends_place free

/-- A file was opened at a location and may have been written to since. It stood there
before or is new, and nothing else is different. -/
structure Opens (before : FileTree) (location : Location) (number : Nat) (after : FileTree) :
    Prop where
  working : after.working = before.working
  held : after.entry? location = some (.file number)
  others : ∀ other, other ≠ location → after.entry? other = before.entry? other
  origin : before.entry? location = some (.file number) ∨
    before.entry? location = none ∧ number = before.contents.length ∧
      number < after.contents.length
  grown : before.contents.length ≤ after.contents.length
  contents : ∀ other, other ≠ number → after.content other = before.content other

section Opens

variable {number : Nat}

theorem opens_filled (opens : Opens before location number after) (content : Text.Bytes) :
    Opens before location number (after.filled number content) where
  working := opens.working
  held := opens.held
  others := opens.others
  origin := by
    rw [filled, List.length_set]
    exact opens.origin
  grown := by
    rw [filled, List.length_set]
    exact opens.grown
  contents := by
    intro other apart
    rw [content_filled_other apart, opens.contents other apart]

theorem opened_file_eq_ok {opened : FileTree}
    (success : tree.openedFile path = .ok (number, opened)) :
    ∃ location, tree.locate .create path = .ok location ∧ Opens tree location number opened := by
  rw [openedFile, bind_eq_ok] at success
  obtain ⟨location, located, success⟩ := success
  refine ⟨location, located, ?_⟩
  split at success
  · rename_i held
    obtain ⟨rfl, rfl⟩ := Prod.mk.inj (Except.ok.inj success)
    have stays : Opens tree location _ tree :=
      ⟨rfl, held, fun _ _ => rfl, .inl held, Nat.le_refl _, fun _ _ => rfl⟩
    exact opens_filled stays []
  · rename_i free
    obtain ⟨rfl, rfl⟩ := Prod.mk.inj (Except.ok.inj success)
    have longer : (tree.added location []).contents.length = tree.contents.length + 1 :=
      List.length_append
    exact
      { working := working_place
        held := entry_place (ne_nil_of_free free)
        others := fun _ apart => entry_place_other apart
        origin := .inr ⟨free, rfl, by rw [longer]; exact Nat.lt_succ_self _⟩
        grown := by rw [longer]; exact Nat.le_succ _
        contents := fun _ apart => content_added_other apart }
  · exact nomatch success

/-- Where a file is opened no directory stands and no link. -/
theorem unlinked_of_opens (opens : Opens before location number after) :
    ∀ target, before.entry? location ≠ some (.link target) := by
  intro target held
  rcases opens.origin with stood | ⟨free, _⟩
  · exact nomatch stood.symm.trans held
  · exact nomatch free.symm.trans held

theorem no_directory_of_opens (opens : Opens before location number after) :
    before.isDirectoryAt location = false := by
  rcases opens.origin with stood | ⟨free, _⟩
  · rw [isDirectoryAt, stood]
    rfl
  · rw [isDirectoryAt, free]
    rfl

/-- What stood before still stands. -/
theorem entry_of_opens {other : Location} (opens : Opens before location number after)
    (held : before.entry? other = some entry) : after.entry? other = some entry := by
  by_cases here : other = location
  · rw [here] at held ⊢
    rcases opens.origin with stood | ⟨free, _⟩
    · rw [opens.held, ← stood, held]
    · exact nomatch free.symm.trans held
  · rw [opens.others other here, held]

end Opens

end FileTree

namespace Change

open FileTree

variable {machine : Machine} {tree : FileTree} {path : Path} {content : Text.Bytes}

theorem bind_eq {First Second : Type} (first : Change First) (next : First → Change Second)
    (tree : FileTree) :
    (first >>= next) tree =
      match first tree with
      | (.ok value, left) => next value left
      | (.error fault, left) => (.error fault, left) := by
  change (match first tree with | (result, left) => ExceptT.bindCont next result left) = _
  generalize first tree = attempt
  obtain ⟨result, left⟩ := attempt
  cases result with
  | error fault => rfl
  | ok value => rfl

/-- A step that the tree and the machine allow is taken; otherwise nothing happens, and a
fault that is not the machine's comes from the tree. -/
theorem call_step_cases {Value : Type} (machine : Machine) (request : Call)
    (step : FileTree → Except Fault (Value × FileTree)) (tree : FileTree) :
    (∃ value changed, step tree = .ok (value, changed) ∧
        call machine request (ofStep step) tree = (.ok value, changed)) ∨
      ∃ fault, call machine request (ofStep step) tree = (.error fault, tree) ∧
        ((∃ reason, machine.refusal? request tree = some reason ∧ fault = .device reason) ∨
          step tree = .error fault) := by
  unfold call ofStep
  cases refused : machine.refusal? request tree with
  | some reason => exact .inr ⟨.device reason, rfl, .inl ⟨reason, rfl, rfl⟩⟩
  | none =>
      dsimp only
      cases step tree with
      | ok taken => exact .inl ⟨taken.1, taken.2, rfl, rfl⟩
      | error fault => exact .inr ⟨fault, rfl, .inr rfl⟩

theorem call_update_cases (machine : Machine) (request : Call)
    (update : FileTree → Except Fault FileTree) (tree : FileTree) :
    (∃ changed, update tree = .ok changed ∧
        call machine request (ofUpdate update) tree = (.ok (), changed)) ∨
      ∃ fault, call machine request (ofUpdate update) tree = (.error fault, tree) ∧
        ((∃ reason, machine.refusal? request tree = some reason ∧ fault = .device reason) ∨
          update tree = .error fault) := by
  rcases call_step_cases machine request
      (fun tree => (update tree).map fun changed => ((), changed)) tree with
    ⟨_, changed, taken, result⟩ | ⟨fault, result, cause⟩
  · cases outcome : update tree with
    | error fault => simp [outcome, Except.map] at taken
    | ok made =>
        obtain rfl : made = changed := by simpa [outcome, Except.map] using taken
        exact .inl ⟨made, rfl, result⟩
  · refine .inr ⟨fault, result, cause.imp_right fun failed => ?_⟩
    cases outcome : update tree with
    | error fault => simpa [outcome, Except.map] using failed
    | ok made => simp [outcome, Except.map] at failed

/-- A file was opened to be written, and emptied if it stood there. -/
structure Creates (machine : Machine) (path : Path) (tree : FileTree) (location : Location)
    (number : Nat) (emptied : FileTree) : Prop where
  located : tree.locate .create path = .ok location
  opens : Opens tree location number emptied
  result : create machine path tree = (.ok number, emptied)

theorem create_cases (machine : Machine) (path : Path) (tree : FileTree) :
    (∃ location number emptied, Creates machine path tree location number emptied) ∨
      ∃ fault, create machine path tree = (.error fault, tree) := by
  rcases call_step_cases machine (.create path) (·.openedFile path) tree with
    ⟨number, emptied, opened, result⟩ | ⟨fault, result, _⟩
  · obtain ⟨location, located, opens⟩ := opened_file_eq_ok opened
    exact .inl ⟨location, number, emptied, located, opens, result⟩
  · exact .inr ⟨fault, result⟩

/-- What writing a file can do: nothing, or open a file and leave a front of the content
in it, which is the whole content unless the write itself is refused. -/
inductive Writing (machine : Machine) (path : Path) (content : Text.Bytes) (tree : FileTree) :
    Except Fault Unit × FileTree → Prop where
  | unopened (fault : Fault) (cause : create machine path tree = (.error fault, tree)) :
      Writing machine path content tree (.error fault, tree)
  | brokenOff {location : Location} {number : Nat} {emptied : FileTree} (reason : Text)
      (front : Text.Bytes) (creates : Creates machine path tree location number emptied)
      (isFront : front <+: content)
      (whole : machine.refusal? (.write number content) emptied = none → front = content)
      (cause : ∃ call left, machine.refusal? call left = some reason) :
      Writing machine path content tree (.error (.device reason), emptied.filled number front)
  | done {location : Location} {number : Nat} {emptied : FileTree}
      (creates : Creates machine path tree location number emptied) :
      Writing machine path content tree (.ok (), emptied.filled number content)

theorem write_file_writing (machine : Machine) (path : Path) (content : Text.Bytes)
    (tree : FileTree) :
    Writing machine path content tree (writeFile machine path content tree) := by
  unfold writeFile
  rw [bind_eq]
  rcases create_cases machine path tree with ⟨location, number, emptied, creates⟩ | ⟨fault, failed⟩
  · rw [creates.result]
    dsimp only
    rw [bind_eq, write]
    cases refused : machine.refusal? (.write number content) emptied with
    | some reason =>
        refine .brokenOff reason _ creates (List.take_prefix _ content) ?_ ⟨_, _, refused⟩
        intro accepted
        exact nomatch refused.symm.trans accepted
    | none =>
        dsimp only
        unfold secure call
        cases unsecured : machine.refusal? (.secure number) (emptied.filled number content) with
        | some reason =>
            exact .brokenOff reason content creates (List.prefix_refl content) (fun _ => rfl)
              ⟨_, _, unsecured⟩
        | none => exact .done creates
  · rw [failed]
    exact .unopened fault failed

/-- Replacing a file writes the second file and moves it; what was done before a
fault stays. -/
theorem replace_file_eq (machine : Machine) (path : Path) (content : Text.Bytes)
    (tree : FileTree) :
    replaceFile machine path content tree =
      match writeFile machine (besidePath path) content tree with
      | (.error fault, left) => (.error fault, left)
      | (.ok _, written) => rename machine (besidePath path) path written := by
  unfold replaceFile
  rw [bind_eq]
  generalize writeFile machine (besidePath path) content tree = attempt
  obtain ⟨result, left⟩ := attempt
  cases result with
  | error fault => rfl
  | ok _ => rfl

/-- What every directory that is made preserves holds when all are made, and also when
one of them cannot be. -/
theorem make_directories_induction {invariant : FileTree → Prop}
    (preserved : ∀ tree path made, FileTree.madeDirectory tree path = .ok made →
      invariant tree → invariant made)
    (machine : Machine) (paths : List Path) (tree : FileTree) (start : invariant tree) :
    invariant (makeDirectories machine paths tree).2 := by
  have step (path : Path) (tree : FileTree) (holds : invariant tree) :
      invariant (makeDirectory machine path tree).2 := by
    rcases call_update_cases machine (.makeDirectory path) (·.madeDirectory path) tree with
      ⟨made, success, result⟩ | ⟨fault, result, _⟩
    · rw [makeDirectory, result]
      exact preserved tree path made success holds
    · rw [makeDirectory, result]
      exact holds
  induction paths generalizing tree with
  | nil => exact start
  | cons path parents induction =>
      have settled (fault : Fault) (left : FileTree) :
          (if left.isDirectory path then (Except.ok (), left)
            else (Except.error fault, left) : Except Fault Unit × FileTree).2 = left := by
        split <;> rfl
      have first := step path tree start
      rw [makeDirectories]
      dsimp only
      split
      · rename_i made result
        rwa [result] at first
      · rename_i left result
        rw [result] at first
        have above := induction left first
        split
        · rename_i fault upper failed
          rwa [failed] at above
        · rename_i upper success
          rw [success] at above
          have second := step path upper above
          split
          · rename_i made again
            rwa [again] at second
          · rename_i fault final again
            rw [again] at second
            rwa [settled]
      · rename_i fault left _ result
        rw [result] at first
        rwa [settled]

theorem make_parents_extends (machine : Machine) (path : Path) (tree : FileTree) :
    Extends tree (makeParents machine path tree).2 := by
  apply make_directories_induction _ machine path.parents tree (extends_refl tree)
  intro before path made success earlier
  exact extends_trans earlier (made_directory_extends success)

end Change

end StylePurge
