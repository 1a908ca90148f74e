import StylePurge.Proofs.GlobPaths

/-!
A star at the end of a pattern. Where the pieces in front of it hold no wildcards, they are
looked up one after the other, and the star finds every name in the directory that they lead
to.
-/

namespace StylePurge.Glob

variable {tree : FileTree} {path : Path} {front : Text} {depth : Nat}

/-- The pattern that stands for its own text. -/
def Pattern.ofText (text : Text) : Pattern := ⟨text.map .char⟩

def star : Pattern := ⟨[.anySequence]⟩

def wildcards : List Char := ['*', '?', '[']

def IsPlain (text : Text) : Prop := ∀ character ∈ text, character ∉ wildcards

theorem literal_of_text (text : Text) : (Pattern.ofText text).literal? = some text := by
  induction text with
  | nil => rfl
  | cons character rest induction =>
      have step := literal_char character (rest.map .char)
      exact step.trans (congrArg (Option.map (character :: ·)) induction)

theorem compile_from_char {character : Char} (position : Nat) (fresh : Bool) (rest : Text)
    (plain : character ∉ wildcards) :
    compileFrom position fresh (character :: rest) =
      (compileFrom (position + 1) (character == '/') rest).map (.char character :: ·) := by
  simp only [wildcards, List.mem_cons, List.not_mem_nil, or_false, not_or] at plain
  obtain ⟨noStar, noMark, noBracket⟩ := plain
  rw [compileFrom]
  all_goals simp_all

/-- Plain characters stand for themselves, whatever is behind them. -/
theorem compile_from_front (plain : IsPlain front) (position : Nat) (fresh : Bool) (rest : Text) :
    ∃ next behind, compileFrom position fresh (front ++ rest) =
      (compileFrom next behind rest).map (front.map Token.char ++ ·) := by
  induction front generalizing position fresh with
  | nil =>
      refine ⟨position, fresh, ?_⟩
      rw [List.nil_append]
      cases compileFrom position fresh rest with
      | error fault => rfl
      | ok tokens => rfl
  | cons character front induction =>
      obtain ⟨next, behind, same⟩ := induction
        (fun other member => plain other (List.mem_cons_of_mem character member))
        (position + 1) (character == '/')
      refine ⟨next, behind, ?_⟩
      rw [List.cons_append, compile_from_char position fresh _ (plain character List.mem_cons_self),
        same]
      cases compileFrom next behind rest with
      | error fault => rfl
      | ok tokens => rfl

theorem compile_literal (plain : IsPlain front) : compile front = .ok (.ofText front) := by
  obtain ⟨next, behind, same⟩ := compile_from_front plain 0 true []
  rw [List.append_nil] at same
  rw [compile, same, compileFrom]
  simp [Except.map, Pattern.ofText]

theorem compile_with_star (plain : IsPlain front) :
    compile (front ++ ['*']) = .ok ⟨front.map .char ++ [.anySequence]⟩ := by
  obtain ⟨next, behind, same⟩ := compile_from_front plain 0 true ['*']
  rw [compile, same]
  simp [compileFrom, Except.map]

theorem plain_of_piece {piece : Text} (plain : IsPlain front)
    (member : piece ∈ Text.splitAt (· == '/') front) : IsPlain piece :=
  fun character inside => plain character (Text.mem_piece member inside).2

/-- The pattern that names whatever is in the directory that the text leads to. -/
def inside (front : Text) : Text := front ++ ['/', '*']

theorem query_of_inside (plain : IsPlain front) (relative : (Path.mk front).isAbsolute = false)
    (nonempty : front ≠ []) :
    Query.ofPattern (inside front) =
      .ok ⟨⟨Path.dot⟩, (Text.splitAt (· == '/') front).map Pattern.ofText ++ [star], false⟩ := by
  have whole : compile (inside front) = .ok ⟨(front ++ ['/']).map .char ++ [.anySequence]⟩ := by
    have more : IsPlain (front ++ ['/']) := by
      intro character member
      rcases List.mem_append.1 member with listed | single
      · exact plain character listed
      · rw [List.mem_singleton.1 single]
        decide
    rw [← compile_with_star more, inside, List.append_assoc]
    rfl
  have pieces : patternPieces (inside front) = Text.splitAt (· == '/') front ++ [['*']] := by
    have split : Text.splitAt (· == '/') (inside front) =
        Text.splitAt (· == '/') front ++ [['*']] := Text.split_at_parts rfl front ['*']
    rw [patternPieces, split]
    simp
  have compiled : (Text.splitAt (· == '/') front ++ [['*']]).mapM compile =
      .ok ((Text.splitAt (· == '/') front).map Pattern.ofText ++ [star]) := by
    have literals : List.Forall₂ (fun piece pattern => compile piece = .ok pattern)
        (Text.splitAt (· == '/') front) ((Text.splitAt (· == '/') front).map Pattern.ofText) := by
      rw [List.forall₂_map_right_iff, List.forall₂_same]
      exact fun piece member => compile_literal (plain_of_piece plain member)
    have last : compile ['*'] = .ok star :=
      @compile_with_star [] fun _ member => absurd member List.not_mem_nil
    exact map_m_eq_ok.2 (List.rel_append literals (.cons last .nil))
  have noRoot : ((inside front).head? == some '/') = false := by
    obtain ⟨first, rest, rfl⟩ := List.exists_cons_of_ne_nil nonempty
    simpa [inside, Path.isAbsolute] using relative
  have noSlash : ((inside front).getLast? == some '/') = false := by simp [inside]
  have body : (inside front).isEmpty = false := by simp [inside]
  rw [Query.ofPattern, whole]
  simp only [noRoot, noSlash, Bool.false_eq_true, if_false, pieces, compiled, body, bind,
    Except.bind]

/-- The pieces can be looked up one after the other. -/
def leads (tree : FileTree) : Path → List Text → Bool
  | _, [] => true
  | path, piece :: rest =>
      (if piece = Path.dot || piece = Path.dots then tree.isDirectory path
        else tree.names? (below path piece)) && leads tree (below path piece) rest

theorem search_leads {directoriesOnly : Bool} (pieces : List Text) (rest : List Pattern)
    (led : leads tree path pieces = true) :
    search tree directoriesOnly depth (pieces.map Pattern.ofText ++ rest) path =
      search tree directoriesOnly depth rest (pieces.foldl below path) := by
  induction pieces generalizing path with
  | nil => rfl
  | cons piece pieces induction =>
      rw [leads, Bool.and_eq_true] at led
      rw [List.map_cons, List.cons_append, search, literal_of_text]
      dsimp only
      rw [if_pos led.1, induction led.2]
      rfl

theorem star_matches (text : Text) : star.matches text = true := by
  have whole : ∃ rest ∈ suffixes text, matchesTokens [] rest = true := by
    induction text with
    | nil => exact ⟨[], List.mem_cons_self, rfl⟩
    | cons character text induction =>
        obtain ⟨rest, member, empty⟩ := induction
        exact ⟨rest, List.mem_cons_of_mem _ member, empty⟩
  exact List.any_eq_true.2 whole

/-- The star finds every name in the directory. -/
theorem search_star (stands : tree.isDirectory path = true)
    (named : ∀ name ∈ childNames tree path, FileTree.isSpecial name = false ∧ '/' ∉ name) :
    search tree false depth [star] path = (childNames tree path).map (below path) := by
  have visited (name : Text) (listed : name ∈ childNames tree path) :
      visit tree false depth [star] (below path name) = [below path name] := by
    obtain ⟨ordinary, plain⟩ := named name listed
    obtain ⟨front, pieces⟩ := below_pieces path plain
    have last := Path.file_name_of_pieces pieces ordinary
    have single : star.isRecursive = false := rfl
    rw [visit, if_pos (by rw [single]; rfl), compare, if_pos (star_matches name), search,
      accept]
    · rfl
    · exact last
  have wildcard : star.literal? = none := rfl
  have noDot (piece : Text) : (star.startsWithDot && star.matches piece) = false := rfl
  rw [search, wildcard]
  dsimp only
  rw [if_neg (by simp [stands]), List.filter_eq_nil_iff.2 (fun piece _ => by simp [noDot]),
    List.flatMap_nil, List.nil_append, List.map_eq_flatMap]
  exact List.flatMap_congr visited

/-- The pieces of the text, none with a wildcard, can be looked up one after the other, and they
lead to a directory. -/
structure Reaches (tree : FileTree) (text : Text) (directory : Location) : Prop where
  plain : IsPlain text
  relative : (Path.mk text).isAbsolute = false
  named : (Path.mk text).steps ≠ []
  unslashed : text.getLast? ≠ some '/'
  led : leads tree ⟨Path.dot⟩ (Text.splitAt (· == '/') text) = true
  arrived : (Text.splitAt (· == '/') text).foldl below ⟨Path.dot⟩ = ⟨text⟩
  located : tree.locate .follow ⟨text⟩ = .ok directory
  stands : tree.isDirectoryAt directory = true

/-- A piece without wildcards, slashes and zeros. -/
def isClean (piece : Text) : Bool :=
  !piece.isEmpty && piece.all fun character =>
    decide (character ∉ wildcards) && character != '/' && character != '\x00'

section Reaches

variable {text piece : Text} {directory next : Location}

theorem free_of_clean (clean : isClean piece = true) :
    piece ≠ [] ∧ IsPlain piece ∧ '/' ∉ piece ∧ '\x00' ∉ piece := by
  simp only [isClean, Bool.and_eq_true, Bool.not_eq_true', List.isEmpty_eq_false_iff,
    List.all_eq_true, decide_eq_true_eq, bne_iff_ne] at clean
  obtain ⟨nonempty, free⟩ := clean
  exact ⟨nonempty, fun character member => (free character member).1.1,
    fun member => (free '/' member).1.2 rfl, fun member => (free '\x00' member).2 rfl⟩

/-- A name leads from the working directory to what has the name there. -/
theorem reaches_name (clean : isClean piece = true) (ordinary : FileTree.isSpecial piece = false)
    (ahead : tree.stride tree.working piece = .go next) (stands : tree.isDirectoryAt next = true)
    (fits : FileTree.Fits ⟨piece⟩) : Reaches tree piece next := by
  obtain ⟨nonempty, plain, noSlash, noZero⟩ := free_of_clean clean
  obtain ⟨real, noDots⟩ := Bool.or_eq_false_iff.1 ordinary
  have noDot : piece ≠ Path.dot := beq_eq_false_iff_ne.1 (Bool.or_eq_false_iff.1 real).2
  have pieces : (Path.mk piece).pieces = [piece] := Path.pieces_plain noSlash
  have relative : (Path.mk piece).isAbsolute = false := by
    rw [Path.isAbsolute, beq_eq_false_iff_ne]
    exact fun first => noSlash (List.mem_of_mem_head? first)
  have located (ending : FileTree.Ending) : tree.locate ending ⟨piece⟩ = .ok next := by
    rw [FileTree.locate_eq_ok, pieces, FileTree.base, relative]
    exact ⟨FileTree.check_path_eq_ok.2 ⟨noZero, nonempty, fits⟩,
      FileTree.walk_concat [] FileTree.walk_nil ahead⟩
  have split : Text.splitAt (· == '/') piece = [piece] := pieces
  have start : below ⟨Path.dot⟩ piece = ⟨piece⟩ := rfl
  have there : tree.names? ⟨piece⟩ = true := by rw [FileTree.names?, located]
  exact
    { plain := plain
      relative := relative
      named := by
        rw [Path.steps, pieces, List.filter_cons_of_pos (by rw [real]; rfl)]
        exact List.cons_ne_nil _ _
      unslashed := fun last => noSlash (List.mem_of_getLast? last)
      led := by
        rw [split, leads, start, there, leads, if_neg (by simpa [noDot] using noDots)]
        rfl
      arrived := by rw [split, List.foldl_cons, start, List.foldl_nil]
      located := located .follow
      stands := stands }

theorem leads_concat (pieces : List Text) (last : Text) :
    leads tree path (pieces ++ [last]) =
      (leads tree path pieces && leads tree (pieces.foldl below path) [last]) := by
  induction pieces generalizing path with
  | nil => rfl
  | cons piece pieces induction =>
      rw [List.cons_append, leads, leads, induction, Bool.and_assoc]
      rfl

theorem not_empty (reaches : Reaches tree text directory) : text ≠ [] := by
  rintro rfl
  exact reaches.named rfl

theorem join_of_reaches (reaches : Reaches tree text directory) (piece : Text) :
    (Path.mk text).join piece = ⟨text ++ '/' :: piece⟩ := by
  have nonempty : text.isEmpty = false := List.isEmpty_eq_false_iff.2 (not_empty reaches)
  have joins : (text.isEmpty || text.getLast? == some '/') = false := by
    rw [nonempty, Bool.false_or, beq_eq_false_iff_ne]
    exact reaches.unslashed
  rw [Path.join, joins, if_neg Bool.false_ne_true, List.append_assoc]
  rfl

theorem below_of_reaches (reaches : Reaches tree text directory) (piece : Text) :
    below ⟨text⟩ piece = ⟨text ++ '/' :: piece⟩ := by
  have other : (Path.mk text).same ⟨Path.dot⟩ = false := by
    have noSteps : (Path.mk Path.dot).steps = [] := rfl
    rw [Path.same, beq_eq_false_iff_ne]
    intro same
    exact reaches.named ((Path.steps_same same).trans noSteps)
  rw [below, other, if_neg Bool.false_ne_true, join_of_reaches reaches]

theorem reaches_piece (reaches : Reaches tree text directory) (clean : isClean piece = true)
    (ahead : tree.stride directory piece = .go next) (stands : tree.isDirectoryAt next = true)
    (fits : FileTree.Fits ⟨text ++ '/' :: piece⟩) : Reaches tree (text ++ '/' :: piece) next := by
  obtain ⟨nonempty, plain, noSlash, noZero⟩ := free_of_clean clean
  have joined := below_of_reaches reaches piece
  have pieces : Text.splitAt (· == '/') (text ++ '/' :: piece) =
      Text.splitAt (· == '/') text ++ [piece] := by
    have alone : Text.splitAt (· == '/') piece = [piece] := Path.pieces_plain noSlash
    rw [Text.split_at_parts rfl, alone]
  have located (ending : FileTree.Ending) :
      tree.locate ending ⟨text ++ '/' :: piece⟩ = .ok next := by
    rw [← join_of_reaches reaches piece] at fits ⊢
    exact FileTree.locate_join reaches.located ahead noSlash noZero fits
  have led : leads tree ⟨text⟩ [piece] = true := by
    have directoryThere : tree.isDirectory ⟨text⟩ = true :=
      FileTree.is_directory_iff.2 ⟨directory, reaches.located, reaches.stands⟩
    have there : tree.names? (below ⟨text⟩ piece) = true := by
      rw [joined, FileTree.names?, located]
    rw [leads, directoryThere, there, ite_self]
    rfl
  exact
    { plain := by
        intro character member
        rcases List.mem_append.1 member with front | behind
        · exact reaches.plain character front
        rcases List.mem_cons.1 behind with rfl | inPiece
        · decide
        · exact plain character inPiece
      relative := by
        rw [← join_of_reaches reaches piece, Path.absolute_join]
        · exact reaches.relative
        · exact not_empty reaches
      named := by
        rw [Path.steps, Path.pieces, pieces, List.filter_append]
        exact List.append_ne_nil_of_left_ne_nil reaches.named _
      unslashed := by
        obtain ⟨front, last, rfl⟩ := (List.eq_nil_or_concat' piece).resolve_left nonempty
        rw [← List.cons_append, ← List.append_assoc, List.getLast?_concat]
        intro same
        obtain rfl := Option.some.inj same
        exact noSlash (List.mem_append_right front (List.mem_singleton_self _))
      led := by rw [pieces, leads_concat, reaches.led, reaches.arrived, led, Bool.and_self]
      arrived := by
        rw [pieces, List.foldl_append, reaches.arrived]
        exact joined
      located := located .follow
      stands := stands }

/-- What is found are all names in the directory. -/
theorem expand_inside (reaches : Reaches tree text directory)
    (named : ∀ name ∈ tree.names directory, FileTree.isSpecial name = false ∧ '/' ∉ name) :
    expand tree (inside text) = .ok ((tree.names directory).map (below ⟨text⟩)) := by
  have stands : tree.isDirectory ⟨text⟩ = true :=
    FileTree.is_directory_iff.2 ⟨directory, reaches.located, reaches.stands⟩
  have children : childNames tree ⟨text⟩ = tree.names directory := by
    rw [childNames, reaches.located]
  have nonempty := not_empty reaches
  refine expand_eq_ok.2 ⟨_, query_of_inside reaches.plain reaches.relative nonempty, ?_⟩
  rw [Query.paths, search_leads _ _ reaches.led, reaches.arrived,
    search_star stands (children ▸ named), children]

end Reaches

end StylePurge.Glob
