import StylePurge.Proofs.PathTargets

/-!
Trees as they are on a disk, where every entry stands in a directory and every file has a
content. Nothing stands below a file or a link then, and a walk that follows links ends
inside a directory and never at a link.
-/

namespace StylePurge.FileTree

variable {tree before after : FileTree} {ending : Ending} {links : Nat} {location : Location}
variable {path : Path}

structure Standing (tree : FileTree) : Prop where
  inside : ∀ location entry, tree.entry? location = some entry →
    tree.isDirectoryAt location.dropLast = true
  stored : ∀ location number, tree.entry? location = some (.file number) →
    number < tree.contents.length

def isStoredAt (tree : FileTree) (location : Location) : Bool :=
  match tree.entry? location with
  | some (.file number) => number < tree.contents.length
  | _ => true

theorem is_stored_at_iff : tree.isStoredAt location = true ↔
    ∀ number, tree.entry? location = some (.file number) → number < tree.contents.length := by
  unfold isStoredAt
  split
  · rename_i number held
    simp [held]
  · rename_i noFile
    exact ⟨fun _ number held => absurd held (noFile number), fun _ => rfl⟩

theorem listed_of_entry {entry : Entry} (nonempty : location ≠ [])
    (held : tree.entry? location = some entry) : ∃ old ∈ tree.entries, old.1 = location := by
  rw [entry_of_ne_nil nonempty, Option.map_eq_some_iff] at held
  obtain ⟨old, found, _⟩ := held
  exact ⟨old, List.mem_of_find?_eq_some found, by simpa using List.find?_some found⟩

theorem entry_of_listed {old : Location × Entry} (member : old ∈ tree.entries) :
    ∃ entry, tree.entry? old.1 = some entry := by
  by_cases root : old.1 = []
  · rw [root]
    exact ⟨.directory, rfl⟩
  · have found : (tree.entries.find? fun other => other.1 == old.1).isSome = true :=
      List.find?_isSome.2 ⟨old, member, by simp⟩
    rw [entry_of_ne_nil root]
    obtain ⟨other, first⟩ := Option.isSome_iff_exists.1 found
    exact ⟨other.2, by rw [first]; rfl⟩

/-- It is enough to look at the locations that are listed. -/
theorem standing_iff_listed :
    (∀ old ∈ tree.entries, tree.isDirectoryAt old.1.dropLast = true ∧
      tree.isStoredAt old.1 = true) ↔ tree.Standing := by
  constructor
  · intro listed
    constructor
    · intro location entry held
      by_cases root : location = []
      · rw [root]
        rfl
      · obtain ⟨old, member, rfl⟩ := listed_of_entry root held
        exact (listed old member).1
    · intro location number held
      have nonempty : location ≠ [] := by
        rintro rfl
        exact nomatch held
      obtain ⟨old, member, rfl⟩ := listed_of_entry nonempty held
      exact is_stored_at_iff.1 (listed old member).2 number held
  · intro standing old member
    obtain ⟨entry, held⟩ := entry_of_listed member
    exact ⟨standing.inside old.1 entry held, is_stored_at_iff.2 (standing.stored old.1)⟩

instance (tree : FileTree) : Decidable tree.Standing := decidable_of_iff _ standing_iff_listed

theorem directory_entry (stands : tree.isDirectoryAt location = true) :
    tree.entry? location = some .directory := by
  rwa [isDirectoryAt, beq_iff_eq] at stands

/-- Whatever stands above an entry is a directory. -/
theorem directory_above (standing : tree.Standing) {front : Location} {entry : Entry}
    (held : tree.entry? location = some entry) (above : front <+: location)
    (apart : front ≠ location) : tree.isDirectoryAt front = true := by
  induction location using List.reverseRecOn generalizing entry with
  | nil => exact absurd (List.prefix_nil.1 above) apart
  | append_singleton outer piece induction =>
      have around := standing.inside _ _ held
      rw [List.dropLast_concat] at around
      have inside : front <+: outer := (List.prefix_concat_iff.1 above).resolve_left apart
      by_cases same : front = outer
      · rwa [same]
      · exact induction (directory_entry around) inside same

/-- How a walk that follows links ends. -/
structure Landing (tree : FileTree) (location : Location) : Prop where
  unlinked : ∀ target, tree.entry? location ≠ some (.link target)
  inside : tree.isDirectoryAt location.dropLast = true

theorem landing_of_directory (standing : tree.Standing)
    (stands : tree.isDirectoryAt location = true) : Landing tree location where
  unlinked := by
    intro target link
    rw [directory_entry stands] at link
    exact nomatch link
  inside := standing.inside _ _ (directory_entry stands)

theorem landing_of_go (standing : tree.Standing) {piece : Text} {next : Location}
    (look : tree.stride location piece = .go next) : Landing tree next := by
  have here : tree.isDirectoryAt location = true :=
    directory_of_stride piece (by simp [look])
  have landed := landing_of_directory standing here
  unfold stride at look
  split at look
  · exact nomatch look
  split at look
  · rwa [← Stride.go.inj look]
  split at look
  · rw [← Stride.go.inj look]
    exact landing_of_directory standing landed.inside
  split at look
  · exact nomatch look
  · unfold strideTo at look
    split at look
    · exact nomatch look
    · exact nomatch look
    · rename_i entry unlinked held
      rw [← Stride.go.inj look]
      refine ⟨fun target link => ?_, standing.inside _ _ held⟩
      exact unlinked target (Option.some.inj (held.symm.trans link))

theorem landing_of_absent {piece : Text} {next : Location}
    (look : tree.stride location piece = .absent next) : Landing tree next := by
  have here : tree.isDirectoryAt location = true :=
    directory_of_stride piece (by simp [look])
  have named : tree.strideTo (location ++ [piece]) = .absent next := by
    rcases stride_cases tree location piece with ⟨_, stopped⟩ | ⟨_, ⟨_, goes⟩ | named⟩
    · exact nomatch stopped.symm.trans look
    · exact nomatch goes.symm.trans look
    · exact named.symm.trans look
  unfold strideTo at named
  split at named
  · rename_i free
    obtain rfl := Stride.absent.inj named
    exact ⟨by simp [free], by rwa [List.dropLast_concat]⟩
  · exact nomatch named
  · exact nomatch named

theorem landing_of_walk (standing : tree.Standing) (follows : ending ≠ .keep) {final : Location}
    {pieces : List Text} (landed : Landing tree location)
    (arrived : tree.walk ending links location pieces = .ok final) : Landing tree final := by
  induction links, location, pieces using walk_induction with
  | done links location =>
      rw [walk_nil, Except.ok.injEq] at arrived
      rwa [← arrived]
  | onward links location piece rest onward behind =>
      rw [walk_cons] at arrived
      cases look : tree.stride location piece with
      | stop fault => simp [look] at arrived
      | go next =>
          simp only [look] at arrived
          exact onward next (landing_of_go standing look) arrived
      | absent next =>
          simp only [look] at arrived
          split at arrived
          · rw [← Except.ok.inj arrived]
            exact landing_of_absent look
          · exact nomatch arrived
      | link next target =>
          simp only [look, decide_eq_false follows, Bool.false_and, Bool.false_eq_true,
            if_false] at arrived
          cases links with
          | zero => exact nomatch arrived
          | succ fewer =>
              have start : tree.isDirectoryAt (linkBase location target) = true := by
                unfold linkBase
                split
                · rfl
                · exact directory_of_stride piece (by simp [look])
              exact behind fewer rfl _ _ (landing_of_directory standing start) arrived

theorem landing_of_locate (standing : tree.Standing) (follows : ending ≠ .keep)
    {final : Location} (found : tree.locate ending path = .ok final) : Landing tree final := by
  obtain ⟨_, arrived⟩ := locate_eq_ok.1 found
  have start := directory_of_walk (Path.pieces_ne_nil path) arrived
  exact landing_of_walk standing follows (landing_of_directory standing start) arrived

theorem stride_name {piece : Text} (stands : tree.isDirectoryAt location = true)
    (ordinary : isSpecial piece = false) :
    tree.stride location piece =
      if maxNameSize < Text.byteSize piece then .stop .nameTooLong
      else tree.strideTo (location ++ [piece]) := by
  rw [isSpecial, Bool.or_eq_false_iff, beq_eq_false_iff_ne] at ordinary
  rw [stride, if_neg (by simp [stands]), if_neg (by simp [ordinary.1]), if_neg ordinary.2]

/-- Slashes and dots lead to directories only. -/
theorem directory_of_special (standing : tree.Standing) {piece : Text} {final : Location}
    (stands : tree.isDirectoryAt location = true) (special : isSpecial piece = true)
    (arrived : tree.walk ending links location [piece] = .ok final) :
    tree.isDirectoryAt final = true := by
  rw [isSpecial, Bool.or_eq_true, beq_iff_eq] at special
  rw [walk_cons, stride, if_neg (by simp [stands])] at arrived
  by_cases nothing : isNothing piece = true
  · simp only [if_pos nothing, walk_nil, Except.ok.injEq] at arrived
    rwa [← arrived]
  · have up := special.resolve_left nothing
    simp only [if_neg nothing, if_pos up, walk_nil, Except.ok.injEq] at arrived
    rw [← arrived]
    exact (landing_of_directory standing stands).inside

/-- A name leads to its own place, unless a link stands there. -/
theorem place_of_name {piece : Text} {final : Location}
    (stands : tree.isDirectoryAt location = true) (ordinary : isSpecial piece = false)
    (arrived : tree.walk ending links location [piece] = .ok final) :
    Text.byteSize piece ≤ maxNameSize ∧
      (final = location ++ [piece] ∨
        ∃ link, tree.entry? (location ++ [piece]) = some (.link link)) := by
  rw [walk_cons, stride_name stands ordinary] at arrived
  by_cases long : maxNameSize < Text.byteSize piece
  · rw [if_pos long] at arrived
    exact nomatch arrived
  rw [if_neg long, strideTo] at arrived
  refine ⟨Nat.le_of_not_lt long, ?_⟩
  cases held : tree.entry? (location ++ [piece]) with
  | none =>
      simp only [held] at arrived
      by_cases creates : ending = .create
      · rw [if_pos (by simp [creates]), Except.ok.injEq] at arrived
        exact .inl arrived.symm
      · rw [if_neg (by simp [creates])] at arrived
        exact absurd arrived (by simp)
  | some entry =>
      cases entry with
      | link target => exact .inr ⟨target, rfl⟩
      | file content =>
          simp only [held, walk_nil, Except.ok.injEq] at arrived
          exact .inl arrived.symm
      | directory =>
          simp only [held, walk_nil, Except.ok.injEq] at arrived
          exact .inl arrived.symm

/-- A path that leads to something other than a directory ends in a name, and leads to
the place of that name unless a link stands there. -/
theorem replaceable_of_locate (standing : tree.Standing) {final : Location}
    (found : tree.locate ending path = .ok final)
    (noDirectory : tree.isDirectoryAt final = false) :
    ∃ target, Replaceable tree path target ∧
      (final = target.location ∨ ∃ link, tree.entry? target.location = some (.link link)) := by
  obtain ⟨checked, arrived⟩ := locate_eq_ok.1 found
  obtain ⟨front, piece, pieces⟩ :=
    (List.eq_nil_or_concat' path.pieces).resolve_left (Path.pieces_ne_nil path)
  rw [pieces] at arrived
  obtain ⟨directory, left, reached, last⟩ :=
    walk_parts front [piece] (List.cons_ne_nil piece []) arrived
  have stands := directory_of_walk (List.cons_ne_nil piece []) last
  have ordinary : isSpecial piece = false := by
    rw [Bool.eq_false_iff]
    intro special
    have inside := directory_of_special standing stands special last
    exact nomatch inside.symm.trans noDirectory
  have nonempty : piece ≠ [] := by
    rintro rfl
    exact nomatch ordinary
  obtain ⟨fits, direct⟩ := place_of_name stands ordinary last
  refine ⟨⟨directory, piece, false⟩, ⟨?_, ordinary, fits, rfl, ?_⟩, direct⟩
  · exact (target_of_pieces pieces nonempty).2 ⟨checked, reached, stands, rfl, rfl⟩
  · rw [Bool.eq_false_iff]
    intro inside
    have there : tree.entry? (directory ++ [piece]) = some .directory := directory_entry inside
    rcases direct with same | ⟨link, held⟩
    · rw [same] at noDirectory
      exact nomatch inside.symm.trans noDirectory
    · exact nomatch there.symm.trans held

theorem standing_place (standing : tree.Standing) {placed : Location} (nonempty : placed ≠ [])
    (inside : tree.isDirectoryAt placed.dropLast = true) :
    Standing (tree.place placed .directory) := by
  have stays (outer : Location) (stands : tree.isDirectoryAt outer = true) :
      isDirectoryAt (tree.place placed .directory) outer = true := by
    by_cases here : outer = placed
    · rw [here, isDirectoryAt, entry_place nonempty]
      rfl
    · rwa [directory_of_entry (entry_place_other here)]
  constructor
  · intro location other held
    apply stays
    by_cases here : location = placed
    · rwa [here]
    · rw [entry_place_other here] at held
      exact standing.inside location other held
  · intro location number held
    rw [contents_place]
    by_cases here : location = placed
    · rw [here, entry_place nonempty] at held
      exact absurd (Option.some.inj held) Entry.noConfusion
    · rw [entry_place_other here] at held
      exact standing.stored location number held

section Opens

variable {number : Nat}

theorem stored_of_opens (standing : before.Standing)
    (opens : Opens before location number after) : number < after.contents.length := by
  rcases opens.origin with stood | ⟨_, _, new⟩
  · exact Nat.lt_of_lt_of_le (standing.stored location number stood) opens.grown
  · exact new

/-- Opening a file adds it to the directory where the walk to it ends. -/
theorem standing_of_opens (standing : before.Standing)
    (opens : Opens before location number after) (landed : Landing before location) :
    after.Standing where
  inside := by
    intro place entry held
    rw [directory_of_opens opens]
    by_cases here : place = location
    · rw [here]
      exact landed.inside
    · rw [opens.others place here] at held
      exact standing.inside place entry held
  stored := by
    intro place other held
    by_cases here : place = location
    · rw [here, opens.held] at held
      obtain rfl := Entry.file.inj (Option.some.inj held)
      exact stored_of_opens standing opens
    · rw [opens.others place here] at held
      exact Nat.lt_of_lt_of_le (standing.stored place other held) opens.grown

end Opens

end StylePurge.FileTree
