import StylePurge.Glob.Expansion
import StylePurge.Proofs.Stages
import StylePurge.Proofs.TextPieces

/-!
How patterns find paths. The search takes one component of the pattern after the other and
goes one piece further with each, so whatever is found lies one piece behind something: a
piece that was looked up, a dot or two behind a directory, or a name in a directory. Pieces
that are looked up come from the text of the pattern and hold no slashes.
-/

namespace StylePurge.Glob

theorem literal_char (character : Char) (tokens : List Token) :
    Pattern.literal? ⟨.char character :: tokens⟩ =
      (Pattern.literal? ⟨tokens⟩).map (character :: ·) := by
  rw [Pattern.literal?, List.mapM_cons]
  exact Option.map_eq_bind.symm

theorem literal_wildcard {token : Token} (tokens : List Token)
    (wildcard : ∀ character, token ≠ .char character) :
    Pattern.literal? ⟨token :: tokens⟩ = none := by
  cases token with
  | char character => exact absurd rfl (wildcard character)
  | _ => rw [Pattern.literal?, List.mapM_cons]; rfl

theorem class_not_char {text behind : Text} {token : Token}
    (found : class? text = some (token, behind)) (character : Char) : token ≠ .char character := by
  rintro rfl
  unfold class? at found
  split at found
  · simp at found
  · simp at found

theorem not_literal {token : Token} {rest : Except PatternFault (List Token)}
    {tokens : List Token} (wildcard : ∀ character, token ≠ .char character)
    (compiled : rest.map (token :: ·) = .ok tokens) : Pattern.literal? ⟨tokens⟩ = none := by
  cases rest with
  | error fault => exact nomatch compiled
  | ok others =>
      obtain rfl := Except.ok.inj compiled
      exact literal_wildcard others wildcard

/-- A pattern without wildcards stands for its own text. -/
theorem literal_of_compile_from {text piece : Text} {tokens : List Token} {position : Nat}
    {fresh : Bool} (compiled : compileFrom position fresh text = .ok tokens)
    (literal : Pattern.literal? ⟨tokens⟩ = some piece) : piece = text := by
  fun_induction compileFrom position fresh text generalizing tokens piece with
  | case1 =>
      obtain rfl := Except.ok.inj compiled
      exact (Option.some.inj literal).symm
  | case2 | case3 | case6 | case10 => exact nomatch compiled
  | case4 =>
      obtain rfl := Except.ok.inj compiled
      exact nomatch (literal_wildcard [] (by simp)).symm.trans literal
  | case5 | case7 | case8 =>
      exact nomatch (not_literal (by simp) compiled).symm.trans literal
  | case9 _ _ _ _ _ found =>
      exact nomatch (not_literal (class_not_char found) compiled).symm.trans literal
  | case11 position fresh character rest _ _ _ _ _ induction =>
      cases inner : compileFrom (position + 1) (character == '/') rest with
      | error fault => exact nomatch (inner ▸ compiled)
      | ok others =>
          rw [inner] at compiled
          obtain rfl := Except.ok.inj compiled
          rw [literal_char, Option.map_eq_some_iff] at literal
          obtain ⟨behind, read, rfl⟩ := literal
          rw [induction inner read]

theorem literal_of_compile {text piece : Text} {pattern : Pattern}
    (compiled : compile text = .ok pattern) (literal : pattern.literal? = some piece) :
    piece = text := by
  cases tokens : compileFrom 0 true text with
  | error fault => simp [compile, tokens, Except.map] at compiled
  | ok found =>
      rw [compile, tokens] at compiled
      obtain rfl := Except.ok.inj compiled
      exact literal_of_compile_from tokens literal

/-- No piece that a pattern looks up holds a slash. -/
def Pattern.Plain (pattern : Pattern) : Prop := ∀ piece, pattern.literal? = some piece → '/' ∉ piece

theorem plain_of_pieces {body : Text} {components : List Pattern}
    (compiled : (patternPieces body).mapM compile = .ok components) :
    ∀ pattern ∈ components, pattern.Plain := by
  intro pattern member piece literal slash
  obtain ⟨text, listed, same⟩ := (mem_of_map_m compiled pattern).1 member
  obtain rfl := literal_of_compile same literal
  have split : piece ∈ Text.splitAt (· == '/') body := by
    unfold patternPieces at listed
    dsimp only at listed
    split at listed
    · exact List.dropLast_subset _ listed
    · exact listed
  exact absurd (Text.mem_piece split slash).1 (by decide)

theorem pieces_not_empty {body : Text} (nonempty : body ≠ []) : patternPieces body ≠ [] := by
  unfold patternPieces
  dsimp only
  split
  · rename_i ends
    obtain ⟨front, pieces⟩ := List.getLast?_eq_some_iff.1 ends
    rw [pieces, List.dropLast_concat]
    rintro rfl
    exact nonempty (Text.split_at_trivial pieces)
  · exact Text.split_at_ne_nil _ _

theorem query_components {text : Text} {query : Query} (read : Query.ofPattern text = .ok query) :
    query.components ≠ [] ∧ ∀ pattern ∈ query.components, pattern.Plain := by
  unfold Query.ofPattern at read
  obtain ⟨_, _, read⟩ := bind_eq_ok.1 read
  obtain ⟨components, compiled, read⟩ := bind_eq_ok.1 read
  obtain rfl := Except.ok.inj read
  dsimp only
  generalize (if text.head? == some '/' then text.drop 1 else text) = body at compiled ⊢
  have plain := plain_of_pieces compiled
  have empty : Pattern.Plain ⟨[]⟩ := by
    intro piece literal
    obtain rfl := Option.some.inj literal
    exact List.not_mem_nil
  by_cases nothing : body.isEmpty = true
  · rw [if_pos nothing]
    refine ⟨List.append_ne_nil_of_right_ne_nil _ (List.cons_ne_nil _ _), ?_⟩
    intro pattern member
    rcases List.mem_append.1 member with listed | single
    · exact plain pattern listed
    · rw [List.mem_singleton.1 single]
      exact empty
  · rw [if_neg nothing]
    refine ⟨?_, plain⟩
    rintro rfl
    apply pieces_not_empty (List.isEmpty_eq_false_iff.1 (Bool.eq_false_iff.2 nothing))
    exact List.forall₂_nil_right_iff.1 (map_m_eq_ok.1 compiled)

section Advance

variable {tree : FileTree} {path : Path} {depth : Nat} {components : List Pattern}

/-- One component further. Single and double dots lead on from a directory, another piece has to
lead to something, and a wildcard finds the names of a directory. -/
inductive Advances (tree : FileTree) (before : Path) : Path → Prop where
  | literal {piece : Text} (plain : '/' ∉ piece) (there : tree.names? (below before piece) = true) :
      Advances tree before (below before piece)
  | special {piece : Text} (special : piece = Path.dot ∨ piece = Path.dots)
      (stands : tree.isDirectory before = true) : Advances tree before (below before piece)
  | inside {piece : Text} (special : piece = Path.dots ∨ piece = Path.dot)
      (stands : tree.isDirectory before = true) : Advances tree before (before.join piece)
  | child {name : Text} (listed : name ∈ childNames tree before) :
      Advances tree before (below before name)

def Arrived (tree : FileTree) (path : Path) : Prop := ∃ before, Advances tree before path

/-- What the components find lies one component behind something, as does what they find at a
path that does. -/
structure Arrives (tree : FileTree) (depth : Nat) (components : List Pattern) : Prop where
  search : ∀ directoriesOnly path, (components = [] → Arrived tree path) →
    ∀ found ∈ search tree directoriesOnly depth components path, Arrived tree found
  visit : ∀ directoriesOnly path, Arrived tree path →
    ∀ found ∈ visit tree directoriesOnly depth components path, Arrived tree found

theorem mem_accept {directoriesOnly : Bool} {found : Path}
    (member : found ∈ accept tree directoriesOnly path) : found = path := by
  unfold accept at member
  split at member
  · exact absurd member List.not_mem_nil
  · exact List.mem_singleton.1 member

theorem mem_compare {directoriesOnly : Bool} {pattern : Pattern} {rest : List Pattern}
    {found : Path}
    (member : found ∈ compare tree directoriesOnly depth (pattern :: rest) path) :
    found ∈ search tree directoriesOnly depth rest path := by
  unfold compare at member
  split at member
  · rename_i same _
    obtain ⟨rfl, rfl⟩ := List.cons.inj same
    split at member
    · exact member
    · exact absurd member List.not_mem_nil
  · exact absurd member List.not_mem_nil

/-- What is found at a path is the path itself, or it is found by the components from some place
on, or further down by a double star and the components from some place on. -/
theorem visit_cases {directoriesOnly : Bool} {pattern : Pattern} {rest : List Pattern}
    {found : Path} (member : found ∈ visit tree directoriesOnly depth (pattern :: rest) path) :
    found = path ∨
      (∃ others, others <:+ pattern :: rest ∧
        found ∈ compare tree directoriesOnly depth others path) ∨
      ∃ fewer < depth, ∃ behind, behind <:+ pattern :: rest ∧
        found ∈ search tree directoriesOnly fewer (pattern :: behind) path := by
  rw [visit] at member
  by_cases recursive : pattern.isRecursive = true
  · rw [if_neg (by simp [recursive])] at member
    dsimp only at member
    have suffix : rest.dropWhile Pattern.isRecursive <:+ pattern :: rest :=
      (List.dropWhile_suffix _).trans (List.suffix_cons pattern rest)
    generalize rest.dropWhile Pattern.isRecursive = behind at member suffix
    obtain ⟨further, deeper, member⟩ : ∃ further : List Path,
        (found ∈ further → ∃ fewer < depth,
          found ∈ search tree directoriesOnly fewer (pattern :: behind) path) ∧
        found ∈ if behind.isEmpty then if tree.isDirectory path then path :: further else []
          else compare tree directoriesOnly depth behind path ++ further := by
      refine ⟨_, ?_, member⟩
      intro member
      cases depth with
      | zero => exact absurd member List.not_mem_nil
      | succ fewer => exact ⟨fewer, Nat.lt_succ_self fewer, (List.mem_ite_nil_right.1 member).2⟩
    have below (member : found ∈ further) : ∃ fewer < depth, ∃ behind, behind <:+ pattern :: rest ∧
        found ∈ search tree directoriesOnly fewer (pattern :: behind) path := by
      obtain ⟨fewer, less, there⟩ := deeper member
      exact ⟨fewer, less, behind, suffix, there⟩
    by_cases last : behind.isEmpty = true
    · rw [if_pos last, List.mem_ite_nil_right] at member
      exact (List.mem_cons.1 member.2).imp_right fun later => .inr (below later)
    · rw [if_neg last] at member
      exact .inr ((List.mem_append.1 member).imp (fun here => ⟨behind, suffix, here⟩) below)
  · rw [if_pos (by simp [recursive])] at member
    exact .inr (.inl ⟨_, List.suffix_refl _, member⟩)

section Step

variable {directoriesOnly : Bool}
variable (plain : ∀ pattern ∈ components, pattern.Plain)
variable (shorter : ∀ others : List Pattern, others.length < components.length →
  (∀ pattern ∈ others, pattern.Plain) → Arrives tree depth others)
variable (deeper : ∀ fewer < depth, ∀ others : List Pattern,
  (∀ pattern ∈ others, pattern.Plain) → Arrives tree fewer others)

include plain shorter

theorem compare_arrives {others : List Pattern} (suffix : others <:+ components)
    (arrived : Arrived tree path) :
    ∀ found ∈ compare tree directoriesOnly depth others path, Arrived tree found := by
  intro found member
  cases others with
  | nil =>
      rw [compare] at member
      · exact absurd member List.not_mem_nil
      · intro first behind name empty
        exact absurd empty.symm (List.cons_ne_nil first behind)
  | cons first behind =>
      have short := suffix.length_le
      rw [List.length_cons] at short
      have arrives := shorter behind short fun pattern member =>
        plain pattern (suffix.subset (List.mem_cons_of_mem first member))
      exact arrives.search directoriesOnly path (fun _ => arrived) found (mem_compare member)

include deeper

theorem visit_arrives (arrived : Arrived tree path) :
    ∀ found ∈ visit tree directoriesOnly depth components path, Arrived tree found := by
  intro found member
  cases components with
  | nil =>
      rw [visit] at member
      exact absurd member List.not_mem_nil
  | cons pattern rest =>
      rcases visit_cases member with
        rfl | ⟨others, suffix, here⟩ | ⟨fewer, less, behind, suffix, there⟩
      · exact arrived
      · exact compare_arrives plain shorter suffix arrived found here
      · have kept : ∀ other ∈ pattern :: behind, other.Plain := by
          intro other listed
          rcases List.mem_cons.1 listed with rfl | later
          · exact plain other List.mem_cons_self
          · exact plain other (suffix.subset later)
        have more : pattern :: behind ≠ [] := List.cons_ne_nil pattern behind
        exact (deeper fewer less _ kept).search directoriesOnly path (absurd · more) found there

theorem search_arrives (arrived : components = [] → Arrived tree path) :
    ∀ found ∈ search tree directoriesOnly depth components path, Arrived tree found := by
  intro found member
  cases components with
  | nil =>
      rw [search] at member
      rw [mem_accept member]
      exact arrived rfl
  | cons pattern rest =>
      have onward {next : Path} (advances : Advances tree path next)
          (member : found ∈ search tree directoriesOnly depth rest next) : Arrived tree found := by
        have arrives := shorter rest (Nat.lt_succ_self _) fun other listed =>
          plain other (List.mem_cons_of_mem pattern listed)
        exact arrives.search directoriesOnly next (fun _ => ⟨path, advances⟩) found member
      rw [search] at member
      cases literal : pattern.literal? with
      | some piece =>
          rw [literal] at member
          dsimp only at member
          rw [List.mem_ite_nil_right] at member
          obtain ⟨isThere, later⟩ := member
          by_cases special : piece = Path.dot ∨ piece = Path.dots
          · rw [if_pos (by simpa using special)] at isThere
            exact onward (.special special isThere) later
          · rw [if_neg (by simpa using special)] at isThere
            exact onward (.literal (plain pattern List.mem_cons_self piece literal) isThere) later
      | none =>
          rw [literal] at member
          dsimp only at member
          rw [List.mem_ite_nil_left, Bool.not_eq_true', Bool.not_eq_false] at member
          obtain ⟨stands, member⟩ := member
          rcases List.mem_append.1 member with inside | listed
          · obtain ⟨piece, special, later⟩ := List.mem_flatMap.1 inside
            have either := List.mem_of_mem_filter special
            exact onward (.inside (by simpa using either) stands) later
          · obtain ⟨name, child, later⟩ := List.mem_flatMap.1 listed
            exact visit_arrives plain shorter deeper ⟨path, .child child⟩ found later

end Step

theorem arrives (depth : Nat) (components : List Pattern)
    (plain : ∀ pattern ∈ components, pattern.Plain) : Arrives tree depth components := by
  -- A double star goes on with less depth, everything else with fewer components.
  induction depth using Nat.strong_induction_on generalizing components with
  | _ depth deeper =>
      induction size : components.length using Nat.strong_induction_on generalizing components with
      | _ length shorter =>
          have fewer (others : List Pattern) (less : others.length < components.length)
              (kept : ∀ pattern ∈ others, pattern.Plain) : Arrives tree depth others :=
            shorter others.length (size ▸ less) others kept rfl
          exact
            { search := fun _ _ => search_arrives plain fewer deeper
              visit := fun _ _ => visit_arrives plain fewer deeper }

theorem expand_eq_ok {text : Text} {found : List Path} :
    expand tree text = .ok found ↔
      ∃ query, Query.ofPattern text = .ok query ∧ query.paths tree = found := by
  rw [expand]
  cases Query.ofPattern text with
  | error fault => simp [Except.map]
  | ok query => simp [Except.map]

/-- Whatever a pattern finds lies one component behind something. -/
theorem expand_arrived {text : Text} {found : List Path} (expanded : expand tree text = .ok found) :
    ∀ path ∈ found, Arrived tree path := by
  intro path member
  obtain ⟨query, read, rfl⟩ := expand_eq_ok.1 expanded
  obtain ⟨nonempty, plain⟩ := query_components read
  have all : Arrives tree (depthBound tree) query.components := arrives _ _ plain
  exact all.search query.directoriesOnly query.scope (absurd · nonempty) path member

end Advance

end StylePurge.Glob
