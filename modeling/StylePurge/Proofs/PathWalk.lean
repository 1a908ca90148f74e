import StylePurge.FileTree
import StylePurge.Proofs.Stages

/-!
Walking along a path. One stride says what a single piece of a path comes to; the
walk and the list of locations that it looks at are both repeated strides. A walk
depends on nothing but the entries at the locations it looks at, so it leads to the
same place in every tree that agrees on these.
-/

namespace StylePurge

namespace FileTree

/-- What a piece of a path comes to: the walk ends, goes on, looks at a place that
holds nothing, or comes upon a link. -/
inductive Stride where
  | stop (fault : Fault)
  | go (next : Location)
  | absent (next : Location)
  | link (next : Location) (target : Path)

def strideTo (tree : FileTree) (next : Location) : Stride :=
  match tree.entry? next with
  | none => .absent next
  | some (.link target) => .link next target
  | some _ => .go next

def stride (tree : FileTree) (location : Location) (piece : Text) : Stride :=
  if !tree.isDirectoryAt location then .stop .notDirectory
  else if isNothing piece then .go location
  else if piece = Path.dots then .go location.dropLast
  else if maxNameSize < Text.byteSize piece then .stop .nameTooLong
  else tree.strideTo (location ++ [piece])

/-- Where the pieces of a link's target start from. -/
def linkBase (location : Location) (target : Path) : Location :=
  if target.isAbsolute then [] else location

/-- A walk behind a link, if there may be another link. -/
def leap (tree : FileTree) (ending : Ending) :
    Nat → Location → List Text → Except Fault Location
  | 0, _, _ => .error .tooManyLinks
  | links + 1, location, pieces => tree.walk ending links location pieces

variable {tree before after : FileTree} {ending : Ending} {links : Nat} {location : Location}
variable {piece : Text} {rest : List Text}

theorem walk_nil : tree.walk ending links location [] = .ok location := by
  cases links <;> rfl

theorem walk_cons :
    tree.walk ending links location (piece :: rest) =
      match tree.stride location piece with
      | .stop fault => .error fault
      | .go next => tree.walk ending links next rest
      | .absent next =>
          if ending = .create && rest.isEmpty then .ok next else .error .notFound
      | .link next target =>
          if ending = .keep && rest.isEmpty then .ok next
          else tree.leap ending links (linkBase location target) (target.pieces ++ rest) := by
  have unfolded : tree.walk ending links =
      walkPieces tree ending (tree.leap ending links) := by cases links <;> rfl
  rw [unfolded, walkPieces, stride]
  split
  · rfl
  · split
    · rfl
    · split
      · rfl
      · split
        · rfl
        · simp only [strideTo, linkBase]
          split <;> simp_all

/-- The induction behind every fact about walks: a walk goes on with fewer pieces,
or behind a link with fewer links left. -/
theorem walk_induction {motive : Nat → Location → List Text → Prop}
    (done : ∀ links location, motive links location [])
    (onward : ∀ links location piece rest, (∀ next, motive links next rest) →
      (∀ fewer, links = fewer + 1 → ∀ start pieces, motive fewer start pieces) →
        motive links location (piece :: rest))
    (links : Nat) (location : Location) (pieces : List Text) : motive links location pieces := by
  induction links generalizing location pieces with
  | zero =>
      induction pieces generalizing location with
      | nil => exact done 0 location
      | cons piece rest induction => exact onward 0 location piece rest induction nofun
  | succ links behind =>
      induction pieces generalizing location with
      | nil => exact done (links + 1) location
      | cons piece rest induction =>
          apply onward (links + 1) location piece rest induction
          intro fewer same
          obtain rfl : links = fewer := by omega
          exact behind

def visitPieces (tree : FileTree) (jump : Location → List Text → List Location) :
    Location → List Text → List Location
  | location, [] => [location]
  | location, piece :: rest =>
      location ::
        match tree.stride location piece with
        | .stop _ => []
        | .go next => visitPieces tree jump next rest
        | .absent next => [next]
        | .link next target => next :: jump (linkBase location target) (target.pieces ++ rest)

/-- The locations that a walk looks at, links followed. -/
def visit (tree : FileTree) : Nat → Location → List Text → List Location
  | 0 => visitPieces tree fun _ _ => []
  | links + 1 => visitPieces tree (visit tree links)

def visitBehind (tree : FileTree) : Nat → Location → List Text → List Location
  | 0, _, _ => []
  | links + 1, location, pieces => tree.visit links location pieces

/-- The locations that looking up a path depends on. -/
def route (tree : FileTree) (path : Path) : List Location :=
  tree.visit maxLinks (tree.base path) path.pieces

theorem visit_nil : tree.visit links location [] = [location] := by
  cases links <;> rfl

theorem visit_cons :
    tree.visit links location (piece :: rest) =
      location ::
        match tree.stride location piece with
        | .stop _ => []
        | .go next => tree.visit links next rest
        | .absent next => [next]
        | .link next target =>
            next :: tree.visitBehind links (linkBase location target) (target.pieces ++ rest) := by
  cases links <;> rfl

theorem mem_visit_start (pieces : List Text) : location ∈ tree.visit links location pieces := by
  cases pieces with
  | nil => rw [visit_nil]; exact List.mem_singleton_self location
  | cons piece rest => rw [visit_cons]; exact List.mem_cons_self

/-- The trees have the same entries at these locations. -/
def Agree (before after : FileTree) (locations : List Location) : Prop :=
  ∀ location ∈ locations, after.entry? location = before.entry? location

theorem directory_of_entry (same : after.entry? location = before.entry? location) :
    after.isDirectoryAt location = before.isDirectoryAt location := by
  rw [isDirectoryAt, isDirectoryAt, same]

/-- In a directory either the piece alone says what it comes to, or it is a name and
the entry there says it. -/
theorem stride_forms (location : Location) (piece : Text) :
    (∀ tree : FileTree, tree.isDirectoryAt location = true →
        tree.stride location piece = tree.strideTo (location ++ [piece])) ∨
      (∃ fault, ∀ tree : FileTree, tree.isDirectoryAt location = true →
        tree.stride location piece = .stop fault) ∨
      ∃ next, ∀ tree : FileTree, tree.isDirectoryAt location = true →
        tree.stride location piece = .go next := by
  have inside (tree : FileTree) (directory : tree.isDirectoryAt location = true) :
      tree.stride location piece =
        if isNothing piece then .go location
        else if piece = Path.dots then .go location.dropLast
        else if maxNameSize < Text.byteSize piece then .stop .nameTooLong
        else tree.strideTo (location ++ [piece]) := by
    rw [stride, if_neg (by simp [directory])]
  by_cases nothing : isNothing piece = true
  · refine .inr (.inr ⟨location, ?_⟩)
    intro tree directory
    rw [inside tree directory, if_pos nothing]
  by_cases up : piece = Path.dots
  · refine .inr (.inr ⟨location.dropLast, ?_⟩)
    intro tree directory
    rw [inside tree directory, if_neg nothing, if_pos up]
  by_cases long : maxNameSize < Text.byteSize piece
  · refine .inr (.inl ⟨.nameTooLong, ?_⟩)
    intro tree directory
    rw [inside tree directory, if_neg nothing, if_neg up, if_pos long]
  · apply Or.inl
    intro tree directory
    rw [inside tree directory, if_neg nothing, if_neg up, if_neg long]

theorem stride_outside (piece : Text) (outside : tree.isDirectoryAt location = false) :
    tree.stride location piece = .stop .notDirectory := by
  rw [stride, if_pos (by simp [outside])]

/-- A stride looks at the place it stands at and at the one it leads to. -/
theorem stride_of_agree (here : after.entry? location = before.entry? location)
    (ahead : ∀ next, (before.stride location piece = .go next ∨
      before.stride location piece = .absent next ∨
      ∃ target, before.stride location piece = .link next target) →
        after.entry? next = before.entry? next) :
    after.stride location piece = before.stride location piece := by
  have same := directory_of_entry here
  by_cases directory : before.isDirectoryAt location = true
  · rw [directory] at same
    rcases stride_forms location piece with looks | ⟨fault, stops⟩ | ⟨next, goes⟩
    · rw [looks before directory] at ahead ⊢
      rw [looks after same]
      have named : after.entry? (location ++ [piece]) = before.entry? (location ++ [piece]) := by
        apply ahead
        unfold strideTo
        split
        · exact .inr (.inl rfl)
        · exact .inr (.inr ⟨_, rfl⟩)
        · exact .inl rfl
      rw [strideTo, strideTo, named]
    · rw [stops before directory, stops after same]
    · rw [goes before directory, goes after same]
  · rw [Bool.not_eq_true] at directory
    rw [stride_outside piece directory, stride_outside piece (same.trans directory)]

theorem agree_start {pieces : List Text}
    (agree : Agree before after (before.visit links location pieces)) :
    after.entry? location = before.entry? location :=
  agree location (mem_visit_start pieces)

theorem stride_of_visit
    (agree : Agree before after (before.visit links location (piece :: rest))) :
    after.stride location piece = before.stride location piece := by
  apply stride_of_agree (agree_start agree)
  rw [visit_cons] at agree
  rintro next (go | absent | ⟨target, link⟩)
  · rw [go] at agree
    exact agree next (List.mem_cons_of_mem location (mem_visit_start rest))
  · rw [absent] at agree
    exact agree next (List.mem_cons_of_mem location (List.mem_singleton_self next))
  · rw [link] at agree
    exact agree next (List.mem_cons_of_mem location List.mem_cons_self)

/-- Trees that agree where a walk looks lead it to the same place, and it looks at
the same locations in both. -/
theorem walk_of_agree (ending : Ending) (pieces : List Text)
    (agree : Agree before after (before.visit links location pieces)) :
    after.walk ending links location pieces = before.walk ending links location pieces ∧
      after.visit links location pieces = before.visit links location pieces := by
  induction links, location, pieces using walk_induction with
  | done links location => exact ⟨by rw [walk_nil, walk_nil], by rw [visit_nil, visit_nil]⟩
  | onward links location piece rest onward behind =>
      have same := stride_of_visit agree
      rw [walk_cons, walk_cons, visit_cons, visit_cons, same]
      rw [visit_cons] at agree
      cases look : before.stride location piece with
      | stop fault => exact ⟨rfl, rfl⟩
      | absent next => exact ⟨rfl, rfl⟩
      | go next =>
          simp only [look] at agree ⊢
          have later := onward next fun other member =>
            agree other (List.mem_cons_of_mem location member)
          exact ⟨later.1, by rw [later.2]⟩
      | link next target =>
          simp only [look] at agree ⊢
          cases links with
          | zero => exact ⟨rfl, rfl⟩
          | succ fewer =>
              have later := behind fewer rfl (linkBase location target) (target.pieces ++ rest)
                fun other member =>
                  agree other (List.mem_cons_of_mem location (List.mem_cons_of_mem next member))
              simp only [leap, visitBehind, later.1, later.2, and_self]

theorem stride_cases (tree : FileTree) (location : Location) (piece : Text) :
    (∃ fault, tree.stride location piece = .stop fault) ∨
      tree.isDirectoryAt location = true ∧
        ((∃ next, tree.stride location piece = .go next) ∨
          tree.stride location piece = tree.strideTo (location ++ [piece])) := by
  by_cases directory : tree.isDirectoryAt location = true
  · rcases stride_forms location piece with looks | ⟨fault, stops⟩ | ⟨next, goes⟩
    · exact .inr ⟨directory, .inr (looks tree directory)⟩
    · exact .inl ⟨fault, stops tree directory⟩
    · exact .inr ⟨directory, .inl ⟨next, goes tree directory⟩⟩
  · rw [Bool.not_eq_true] at directory
    exact .inl ⟨.notDirectory, stride_outside piece directory⟩

theorem directory_of_stride (piece : Text)
    (goesOn : ∀ fault, tree.stride location piece ≠ .stop fault) :
    tree.isDirectoryAt location = true := by
  rcases stride_cases tree location piece with ⟨fault, stopped⟩ | ⟨directory, _⟩
  · exact absurd stopped (goesOn fault)
  · exact directory

theorem entry_of_link {next : Location} {target : Path}
    (look : tree.stride location piece = .link next target) :
    tree.entry? next = some (.link target) := by
  rcases stride_cases tree location piece with ⟨_, stopped⟩ | ⟨_, ⟨_, goes⟩ | named⟩
  · exact nomatch stopped.symm.trans look
  · exact nomatch goes.symm.trans look
  · have reached := named.symm.trans look
    unfold strideTo at reached
    split at reached
    · exact nomatch reached
    · rename_i found
      obtain ⟨rfl, rfl⟩ := Stride.link.inj reached
      exact found
    · exact nomatch reached

/-- A walk that arrives passes directories and links only. -/
theorem visit_of_walk {final : Location} (pieces : List Text)
    (arrived : tree.walk .follow links location pieces = .ok final) :
    final ∈ tree.visit links location pieces ∧
      ∀ place ∈ tree.visit links location pieces,
        place = final ∨ tree.isDirectoryAt place = true ∨
          ∃ target, tree.entry? place = some (.link target) := by
  induction links, location, pieces using walk_induction with
  | done links location =>
      rw [walk_nil, Except.ok.injEq] at arrived
      simp [visit_nil, arrived]
  | onward links location piece rest onward behind =>
      rw [walk_cons] at arrived
      rw [visit_cons]
      cases look : tree.stride location piece with
      | stop fault => simp [look] at arrived
      | absent next => simp [look] at arrived
      | go next =>
          simp only [look] at arrived ⊢
          obtain ⟨found, kinds⟩ := onward next arrived
          refine ⟨List.mem_cons_of_mem location found, ?_⟩
          rintro place (_ | ⟨_, later⟩)
          · exact .inr (.inl (directory_of_stride piece (by simp [look])))
          · exact kinds place later
      | link next target =>
          simp only [look, reduceCtorEq, decide_false, Bool.false_and, Bool.false_eq_true,
            if_false] at arrived ⊢
          cases links with
          | zero => exact nomatch arrived
          | succ fewer =>
              obtain ⟨found, kinds⟩ := behind fewer rfl _ _ arrived
              refine ⟨List.mem_cons_of_mem location (List.mem_cons_of_mem next found), ?_⟩
              rintro place (_ | ⟨_, _ | ⟨_, later⟩⟩)
              · exact .inr (.inl (directory_of_stride piece (by simp [look])))
              · exact .inr (.inr ⟨target, entry_of_link look⟩)
              · exact kinds place later

section Lookup

variable {path : Path} {final : Location} {entry : Entry}

theorem locate_eq_ok :
    tree.locate ending path = .ok final ↔
      checkPath path = .ok () ∧
        tree.walk ending maxLinks (tree.base path) path.pieces = .ok final := by
  rw [locate, bind_eq_ok]
  constructor
  · rintro ⟨_, checked, arrived⟩
    exact ⟨checked, arrived⟩
  · rintro ⟨checked, arrived⟩
    exact ⟨(), checked, arrived⟩

theorem lookup_eq_ok :
    tree.lookup path = .ok entry ↔
      ∃ final, tree.locate .follow path = .ok final ∧ tree.entry? final = some entry := by
  rw [lookup, bind_eq_ok]
  apply exists_congr
  intro final
  apply and_congr_right
  intro _
  cases tree.entry? final with
  | none => simp
  | some found => simp

theorem base_of_working (same : after.working = before.working) :
    after.base path = before.base path := by
  rw [base, base, same]

theorem lookup_of_agree (working : after.working = before.working)
    (agree : Agree before after (before.route path)) :
    after.lookup path = before.lookup path ∧ after.route path = before.route path := by
  -- The place where the walk arrives is on the route too, so the trees agree on its entry.
  obtain ⟨walked, visited⟩ := walk_of_agree .follow path.pieces agree
  have located : after.locate .follow path = before.locate .follow path := by
    rw [locate, locate, base_of_working working, walked]
  constructor
  · rw [lookup, lookup, located]
    cases arrived : before.locate .follow path with
    | error fault => rfl
    | ok final =>
        have found := (visit_of_walk path.pieces (locate_eq_ok.1 arrived).2).1
        have same := agree final found
        simp only [bind, Except.bind, same]
  · rw [route, route, base_of_working working, visited]

theorem read_bytes_eq_ok {bytes : Text.Bytes} :
    tree.readBytes path = .ok bytes ↔
      ∃ number, tree.lookup path = .ok (.file number) ∧ tree.content number = .ok bytes := by
  rw [readBytes, bind_eq_ok]
  constructor
  · rintro ⟨entry, found, held⟩
    cases entry with
    | file number => exact ⟨number, found, held⟩
    | directory => exact nomatch held
    | link target => exact nomatch held
  · rintro ⟨number, found, held⟩
    exact ⟨.file number, found, held⟩

/-- Reading a path depends on what it leads to and, if that is a file, on its content. -/
theorem read_bytes_of_lookup (same : after.lookup path = before.lookup path)
    (kept : ∀ number, before.lookup path = .ok (.file number) →
      after.content number = before.content number) :
    after.readBytes path = before.readBytes path := by
  rw [readBytes, readBytes, same]
  cases found : before.lookup path with
  | error fault => rfl
  | ok entry =>
      cases entry with
      | file number => exact kept number found
      | directory => rfl
      | link target => rfl

/-- Where a path leads to something, every location on its route holds something. -/
theorem entry_of_lookup (found : tree.lookup path = .ok entry) :
    ∀ place ∈ tree.route path, (tree.entry? place).isSome = true := by
  obtain ⟨final, arrived, held⟩ := lookup_eq_ok.1 found
  intro place member
  rcases (visit_of_walk path.pieces (locate_eq_ok.1 arrived).2).2 place member with
    rfl | directory | ⟨target, link⟩
  · rw [held]
    rfl
  · rw [isDirectoryAt, beq_iff_eq] at directory
    rw [directory]
    rfl
  · rw [link]
    rfl

end Lookup

end FileTree

end StylePurge
