import StylePurge.Proofs.PathTargets

/-!
Spellings of a path. Repeated slashes and single dots lead nowhere, so a walk that does
not end with them passes over them. Two spellings with the same components lead to the
same place then, whether links are followed or not, unless one of them is too long to be
looked up at all.
-/

namespace StylePurge

namespace Path

/-- The pieces that lead somewhere. -/
def steps (path : Path) : List Text := path.pieces.filter fun piece => !FileTree.isNothing piece

/-- The path ends neither in a slash nor in a single dot, and it is not empty. -/
def EndsInStep (path : Path) : Prop :=
  ∃ front piece, path.pieces = front ++ [piece] ∧ FileTree.isNothing piece = false

def stepComponent (piece : Text) : Component := if piece = dots then .parent else .name piece

def isStepComponent (component : Component) : Bool :=
  component != .root && component != .current

theorem step_component_injective : Function.Injective stepComponent := by
  intro first second same
  unfold stepComponent at same
  by_cases firstUp : first = dots
  · by_cases secondUp : second = dots
    · rw [firstUp, secondUp]
    · rw [if_pos firstUp, if_neg secondUp] at same
      exact nomatch same
  · by_cases secondUp : second = dots
    · rw [if_neg firstUp, if_pos secondUp] at same
      exact nomatch same
    · rw [if_neg firstUp, if_neg secondUp] at same
      exact Component.name.inj same

theorem step_component_step (piece : Text) : isStepComponent (stepComponent piece) = true := by
  unfold stepComponent
  split <;> rfl

theorem components_of_pieces (pieces : List Text) :
    pieces.filterMap component? =
      (pieces.filter fun piece => !FileTree.isNothing piece).map stepComponent := by
  induction pieces with
  | nil => rfl
  | cons piece pieces induction =>
      by_cases nothing : FileTree.isNothing piece = true
      · have none : component? piece = none := by
          have empty : piece = [] ∨ piece = dot := by simpa [FileTree.isNothing] using nothing
          rw [component?, if_pos (by simpa using empty)]
        rw [List.filterMap_cons_none none, induction, List.filter_cons_of_neg (by simp [nothing])]
      · have some : component? piece = some (stepComponent piece) := by
          have real : piece ≠ [] ∧ piece ≠ dot := by simpa [FileTree.isNothing] using nothing
          rw [component?, if_neg (by simpa using real), stepComponent, apply_ite Option.some]
        rw [List.filterMap_cons_some some, induction, List.filter_cons_of_pos (by simp [nothing])]
        rfl

theorem steps_of_components (path : Path) :
    path.steps.map stepComponent = path.components.filter isStepComponent := by
  have body : (path.steps.map stepComponent).filter isStepComponent =
      path.steps.map stepComponent := by
    rw [List.filter_eq_self]
    intro component member
    obtain ⟨piece, _, rfl⟩ := List.mem_map.1 member
    exact step_component_step piece
  rw [components, components_of_pieces]
  change _ = List.filter isStepComponent
    (if path.isAbsolute then .root :: path.steps.map stepComponent
    else if path.pieces.head? = some dot then .current :: path.steps.map stepComponent
    else path.steps.map stepComponent)
  split
  · rw [List.filter_cons_of_neg (by decide), body]
  split
  · rw [List.filter_cons_of_neg (by decide), body]
  · rw [body]

theorem absolute_of_components (path : Path) :
    path.isAbsolute = true ↔ .root ∈ path.components := by
  have body : .root ∉ path.pieces.filterMap component? := by
    rw [components_of_pieces]
    intro member
    obtain ⟨piece, _, same⟩ := List.mem_map.1 member
    have step := step_component_step piece
    rw [same] at step
    exact nomatch step
  rw [components]
  by_cases absolute : path.isAbsolute = true
  · simp [absolute]
  · rw [if_neg absolute]
    split
    · simp [absolute, body]
    · simp [absolute, body]

section Same

variable {first second : Path}

theorem steps_same (same : first.components = second.components) : first.steps = second.steps := by
  apply step_component_injective.list_map
  rw [steps_of_components, steps_of_components, same]

theorem absolute_same (same : first.components = second.components) :
    first.isAbsolute = second.isAbsolute := by
  rw [Bool.eq_iff_iff, absolute_of_components, absolute_of_components, same]

end Same

/-- Characters other than slashes stand in the pieces that lead somewhere, dots apart. -/
theorem mem_steps {path : Path} {character : Char} (noSlash : character ≠ '/')
    (noDot : character ≠ '.') :
    character ∈ path.text ↔ ∃ piece ∈ path.steps, character ∈ piece := by
  constructor
  · intro member
    have joins : (character == '/') = false := beq_false_of_ne noSlash
    obtain ⟨piece, found, inside⟩ := @Text.exists_piece (· == '/') character joins path.text member
    refine ⟨piece, List.mem_filter.2 ⟨found, ?_⟩, inside⟩
    rw [Bool.not_eq_true', FileTree.isNothing, Bool.or_eq_false_iff, List.isEmpty_eq_false_iff,
      beq_eq_false_iff_ne]
    refine ⟨List.ne_nil_of_mem inside, ?_⟩
    rintro rfl
    exact noDot (List.mem_singleton.1 inside)
  · rintro ⟨piece, found, inside⟩
    exact (Text.mem_piece (List.mem_of_mem_filter found) inside).2

/-- A single dot on the way changes nothing about which path it is. -/
theorem components_dot {text : Text} (nonempty : text ≠ []) (rest : Text) :
    (Path.mk (text ++ '/' :: dot ++ '/' :: rest)).components =
      (Path.mk (text ++ '/' :: rest)).components := by
  have split (behind : Text) : (Path.mk (text ++ '/' :: behind)).pieces =
      (Path.mk text).pieces ++ (Path.mk behind).pieces := Text.split_at_parts rfl text behind
  have long : (Path.mk (text ++ '/' :: dot ++ '/' :: rest)).pieces =
      (Path.mk text).pieces ++ dot :: (Path.mk rest).pieces := by
    rw [List.append_assoc, List.cons_append, split]
    exact congrArg _ (@Text.split_at_parts (· == '/') '/' rfl dot rest)
  obtain ⟨piece, pieces, start⟩ := List.exists_cons_of_ne_nil (pieces_ne_nil ⟨text⟩)
  obtain ⟨first, others, rfl⟩ := List.exists_cons_of_ne_nil nonempty
  have absolute (behind : Text) :
      (Path.mk (first :: others ++ behind)).isAbsolute =
        (Path.mk (first :: others)).isAbsolute := rfl
  have noDot : component? dot = none := rfl
  have body : (Path.mk (first :: others ++ '/' :: dot ++ '/' :: rest)).pieces.filterMap component? =
      (Path.mk (first :: others ++ '/' :: rest)).pieces.filterMap component? := by
    rw [long, split, List.filterMap_append, List.filterMap_append,
      List.filterMap_cons_none noDot]
  rw [components, components, body, long, split, start, List.append_assoc, absolute, absolute]
  rfl

end Path

namespace FileTree

/-- The second list has the pieces of the first, some that lead nowhere left out. It is empty
only if the first is. -/
inductive Thins : List Text → List Text → Prop where
  | nil : Thins [] []
  | keep {pieces fewer : List Text} (piece : Text) (thins : Thins pieces fewer) :
      Thins (piece :: pieces) (piece :: fewer)
  | skip {pieces fewer : List Text} {piece : Text} (nothing : isNothing piece = true)
      (goesOn : fewer ≠ []) (thins : Thins pieces fewer) : Thins (piece :: pieces) fewer

variable {tree : FileTree} {ending : Ending} {links : Nat} {location : Location}
variable {pieces fewer : List Text}

theorem thins_append (front : List Text) (thins : Thins pieces fewer) :
    Thins (front ++ pieces) (front ++ fewer) := by
  induction front with
  | nil => exact thins
  | cons piece front induction => exact .keep piece induction

theorem empty_of_thins (thins : Thins pieces fewer) : pieces.isEmpty = fewer.isEmpty := by
  cases thins with
  | nil => rfl
  | keep piece thins => rfl
  | skip nothing goesOn thins => rw [List.isEmpty_cons, List.isEmpty_eq_false_iff.2 goesOn]

theorem stride_nothing {piece : Text} (nothing : isNothing piece = true)
    (stands : tree.isDirectoryAt location = true) : tree.stride location piece = .go location := by
  rw [stride, if_neg (by simp [stands]), if_pos nothing]

/-- The walks along both lists stand at the same location with as many links left. A piece that
leads nowhere is passed in a directory; elsewhere the walk fails at it and at any other piece. -/
theorem walk_thins_of_leap
    (behind : ∀ {pieces fewer : List Text} (start : Location), Thins pieces fewer →
      tree.leap ending links start pieces = tree.leap ending links start fewer)
    (thins : Thins pieces fewer) :
    tree.walk ending links location pieces = tree.walk ending links location fewer := by
  induction thins generalizing location with
  | nil => rfl
  | keep piece thins induction =>
      rw [walk_cons, walk_cons, empty_of_thins thins]
      cases tree.stride location piece with
      | stop fault => rfl
      | absent next => rfl
      | go next => exact induction
      | link next target =>
          dsimp only
          rw [behind (linkBase location target) (thins_append target.pieces thins)]
  | @skip pieces fewer piece nothing goesOn thins induction =>
      by_cases stands : tree.isDirectoryAt location = true
      · rw [walk_cons, stride_nothing nothing stands]
        exact induction
      · rw [Bool.not_eq_true] at stands
        obtain ⟨next, rest, rfl⟩ := List.exists_cons_of_ne_nil goesOn
        rw [walk_cons, walk_cons, stride_outside piece stands, stride_outside next stands]

theorem walk_thins (thins : Thins pieces fewer) :
    tree.walk ending links location pieces = tree.walk ending links location fewer := by
  induction links generalizing location pieces fewer with
  | zero => exact walk_thins_of_leap (fun _ _ => rfl) thins
  | succ links induction => exact walk_thins_of_leap (fun _ shorter => induction shorter) thins

theorem thins_steps {path : Path} (ends : path.EndsInStep) : Thins path.pieces path.steps := by
  obtain ⟨front, last, pieces, real⟩ := ends
  have kept : [last].filter (fun piece => !isNothing piece) = [last] := by simp [real]
  rw [Path.steps, pieces, List.filter_append, kept]
  clear pieces
  induction front with
  | nil => exact .keep last .nil
  | cons piece front induction =>
      by_cases nothing : isNothing piece = true
      · rw [List.filter_cons_of_neg (by simp [nothing])]
        exact .skip nothing (List.append_ne_nil_of_right_ne_nil _ (List.cons_ne_nil _ _)) induction
      · rw [List.filter_cons_of_pos (by simp [nothing])]
        exact .keep piece induction

/-- The path can be looked up, as far as its length goes. -/
def Fits (path : Path) : Prop := Text.byteSize path.text ≤ maxPathSize

theorem check_path_eq_ok {path : Path} :
    checkPath path = .ok () ↔ '\x00' ∉ path.text ∧ path.text ≠ [] ∧ Fits path := by
  unfold checkPath
  rw [Fits, ← Nat.not_lt]
  by_cases zero : '\x00' ∈ path.text
  · simp [zero]
  by_cases empty : path.text = []
  · simp [empty]
  by_cases long : maxPathSize < Text.byteSize path.text
  · simp [long, zero, empty]
  · simp [zero, empty, long]

theorem check_path_spelled {first second : Path} (same : first.components = second.components)
    (firstEnds : first.EndsInStep) (secondEnds : second.EndsInStep)
    (firstFits : Fits first) (secondFits : Fits second) :
    checkPath first = checkPath second := by
  have nonempty {path : Path} (ends : path.EndsInStep) : ¬path.text.isEmpty = true := by
    obtain ⟨front, last, pieces, real⟩ := ends
    intro empty
    rw [Path.pieces, List.isEmpty_iff.1 empty] at pieces
    have lone : front = [] ∧ last = [] := by
      cases front with
      | nil => exact ⟨rfl, (List.cons.inj pieces).1.symm⟩
      | cons piece front => exact absurd (List.cons.inj pieces).2 (by simp)
    rw [lone.2] at real
    exact absurd real (by decide)
  have zero : '\x00' ∈ first.text ↔ '\x00' ∈ second.text := by
    rw [Path.mem_steps (by decide) (by decide), Path.mem_steps (by decide) (by decide),
      Path.steps_same same]
  rw [checkPath, checkPath, if_neg (nonempty firstEnds), if_neg (nonempty secondEnds),
    if_neg (Nat.not_lt.2 firstFits), if_neg (Nat.not_lt.2 secondFits)]
  simp only [zero]

/-- Two spellings of one path lead to the same place, if both can be looked up and neither says
that the place has to be a directory. -/
theorem locate_spelled (ending : Ending) {first second : Path}
    (same : first.components = second.components)
    (firstEnds : first.EndsInStep) (secondEnds : second.EndsInStep)
    (firstFits : Fits first) (secondFits : Fits second) :
    tree.locate ending first = tree.locate ending second := by
  have base : tree.base first = tree.base second := by
    rw [FileTree.base, FileTree.base, Path.absolute_same same]
  rw [locate, locate, check_path_spelled same firstEnds secondEnds firstFits secondFits, base,
    walk_thins (thins_steps firstEnds), walk_thins (thins_steps secondEnds), Path.steps_same same]

end FileTree

end StylePurge
