import StylePurge.Proofs.PathWalk

/-!
Walking along a path part by part. A walk that arrives has come through every front of
its path, and where it went on from there it stood in a directory. In the other
direction a walk to a directory can be carried on by one more piece.
-/

namespace StylePurge.FileTree

variable {tree : FileTree} {ending : Ending} {links : Nat} {location final : Location}

/-- A walk that does not end at its first piece goes on from there, or behind the link
that it finds there. -/
theorem walk_cons_eq_ok {piece : Text} {rest : List Text}
    (goesOn : ending = .follow ∨ rest ≠ []) :
    tree.walk ending links location (piece :: rest) = .ok final ↔
      (∃ next, tree.stride location piece = .go next ∧
        tree.walk ending links next rest = .ok final) ∨
      ∃ next target fewer, tree.stride location piece = .link next target ∧ links = fewer + 1 ∧
        tree.walk ending fewer (linkBase location target) (target.pieces ++ rest) =
          .ok final := by
  have passes (other : Ending) (differs : other ≠ .follow) :
      (ending = other && rest.isEmpty) = false := by
    rcases goesOn with follows | more
    · simp [follows, differs.symm]
    · simp [more]
  rw [walk_cons]
  cases look : tree.stride location piece with
  | stop fault => simp
  | absent next => simp [passes .create (by decide)]
  | go next => simp
  | link next target =>
      cases links with
      | zero => simp [passes .keep (by decide), leap]
      | succ fewer => simp [passes .keep (by decide), leap]

theorem directory_of_walk {pieces : List Text} (goesOn : pieces ≠ [])
    (arrived : tree.walk ending links location pieces = .ok final) :
    tree.isDirectoryAt location = true := by
  obtain ⟨piece, rest, rfl⟩ := List.exists_cons_of_ne_nil goesOn
  apply directory_of_stride piece
  intro fault stopped
  simp [walk_cons, stopped] at arrived

/-- A walk that arrives passes through every front of its path, and with the links that
are left it arrives from there. -/
theorem walk_parts (front rest : List Text) (goesOn : rest ≠ [])
    (arrived : tree.walk ending links location (front ++ rest) = .ok final) :
    ∃ middle left, tree.walk .follow links location front = .ok middle ∧
      tree.walk ending left middle rest = .ok final := by
  induction links, location, front using walk_induction with
  | done links location => exact ⟨location, links, walk_nil, arrived⟩
  | onward links location piece front onward behind =>
      have more : front ++ rest ≠ [] := List.append_ne_nil_of_right_ne_nil front goesOn
      rw [List.cons_append] at arrived
      rcases (walk_cons_eq_ok (.inr more)).1 arrived with
        ⟨next, look, walked⟩ | ⟨next, target, fewer, look, same, walked⟩
      · obtain ⟨middle, left, reached, later⟩ := onward next walked
        exact ⟨middle, left, (walk_cons_eq_ok (.inl rfl)).2 (.inl ⟨next, look, reached⟩), later⟩
      · rw [← List.append_assoc] at walked
        obtain ⟨middle, left, reached, later⟩ := behind fewer same _ _ walked
        refine ⟨middle, left, (walk_cons_eq_ok (.inl rfl)).2 (.inr ?_), later⟩
        exact ⟨next, target, fewer, look, same, reached⟩

theorem walk_front (front rest : List Text)
    (arrived : tree.walk .follow links location (front ++ rest) = .ok final) :
    ∃ middle, tree.walk .follow links location front = .ok middle ∧
      (rest ≠ [] → tree.isDirectoryAt middle = true) := by
  by_cases goesOn : rest = []
  · rw [goesOn, List.append_nil] at arrived
    exact ⟨final, arrived, fun more => absurd goesOn more⟩
  · obtain ⟨middle, left, reached, later⟩ := walk_parts front rest goesOn arrived
    exact ⟨middle, reached, fun _ => directory_of_walk goesOn later⟩

/-- A walk to a directory is carried on by the piece behind it, and ends there whatever is to
happen at its end. -/
theorem walk_concat {directory : Location} {piece : Text} (pieces : List Text)
    (arrived : tree.walk .follow links location pieces = .ok directory)
    (ahead : tree.stride directory piece = .go final) :
    tree.walk ending links location (pieces ++ [piece]) = .ok final := by
  induction links, location, pieces using walk_induction with
  | done links location =>
      rw [walk_nil, Except.ok.injEq] at arrived
      rw [List.nil_append, walk_cons, arrived, ahead]
      exact walk_nil
  | onward links location first rest onward behind =>
      have more : rest ++ [piece] ≠ [] := List.concat_ne_nil piece rest
      rcases (walk_cons_eq_ok (.inl rfl)).1 arrived with
        ⟨next, look, walked⟩ | ⟨next, target, fewer, look, same, walked⟩
      · exact (walk_cons_eq_ok (.inr more)).2 (.inl ⟨next, look, onward next walked⟩)
      · have carried := behind fewer same _ _ walked
        rw [List.append_assoc] at carried
        apply (walk_cons_eq_ok (.inr more)).2
        exact .inr ⟨next, target, fewer, look, same, carried⟩

/-- A walk to a directory passes directories and links only, so it arrives as before in
every tree that has the same of these on its way. -/
theorem walk_to_directory {before after : FileTree} {directory : Location} (pieces : List Text)
    (arrived : before.walk .follow links location pieces = .ok directory)
    (stands : before.isDirectoryAt directory = true)
    (spared : ∀ place ∈ before.visit links location pieces, before.isDirectoryAt place = true ∨
      (∃ target, before.entry? place = some (.link target)) →
        after.entry? place = before.entry? place) :
    after.walk .follow links location pieces = .ok directory ∧
      after.isDirectoryAt directory = true ∧
        after.visit links location pieces = before.visit links location pieces := by
  obtain ⟨passed, kinds⟩ := visit_of_walk pieces arrived
  have agree : Agree before after (before.visit links location pieces) := by
    intro place member
    apply spared place member
    rcases kinds place member with rfl | passable
    · exact .inl stands
    · exact passable
  obtain ⟨walked, visited⟩ := walk_of_agree .follow pieces agree
  have same := directory_of_entry (agree directory passed)
  exact ⟨walked.trans arrived, same.trans stands, visited⟩

end StylePurge.FileTree
