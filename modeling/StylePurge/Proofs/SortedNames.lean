import StylePurge.Whitelist

/-!
The sorted names of a whitelist. Names are compared by code points from the left, which is the
order of the library on lists of characters, so sorting gives the one arrangement of the names
in which each stands strictly before the next.
-/

namespace StylePurge

theorem Text.precedes_iff (left right : Text) : left.precedes right = true ↔ ¬right < left := by
  induction left generalizing right with
  | nil => exact iff_of_true rfl (List.not_lt_nil right)
  | cons first lefts induction =>
      cases right with
      | nil => exact iff_of_false Bool.false_ne_true (not_not_intro (List.nil_lt_cons first lefts))
      | cons other rights =>
          rw [Text.precedes, List.cons_lt_cons_iff]
          by_cases same : first = other
          · subst same
            have steady : ¬first < first := Nat.lt_irrefl first.toNat
            rw [if_pos rfl, induction]
            simp only [steady, true_and, false_or]
          · have apart : first.toNat ≠ other.toNat := fun equal => same (Char.toNat_inj.1 equal)
            rw [if_neg same, decide_eq_true_iff]
            constructor
            · rintro before (behind | ⟨rfl, -⟩)
              · exact Nat.lt_asymm before behind
              · exact same rfl
            · intro notBehind
              have ordered : ¬other.toNat < first.toNat := fun behind => notBehind (.inl behind)
              omega

namespace Whitelist

variable {whitelist : Whitelist}

theorem sorted_perm (whitelist : Whitelist) : whitelist.sorted.Perm whitelist.toList :=
  List.mergeSort_perm whitelist.toList Text.precedes

theorem sorted_ascends (whitelist : Whitelist) :
    whitelist.sorted.Pairwise fun earlier later => earlier < later := by
  have ordered : whitelist.sorted.Pairwise fun earlier later => earlier.precedes later = true := by
    apply List.pairwise_mergeSort
    · intro left middle right
      rw [Text.precedes_iff, Text.precedes_iff, Text.precedes_iff]
      exact List.le_trans
    · intro left right
      rw [Bool.or_eq_true, Text.precedes_iff, Text.precedes_iff]
      exact List.le_total left right
  have distinct : whitelist.sorted.Nodup :=
    (sorted_perm whitelist).nodup_iff.2 whitelist.distinct
  apply (ordered.and distinct).imp
  rintro earlier later ⟨precedes, apart⟩
  have notBehind := (Text.precedes_iff earlier later).1 precedes
  exact Decidable.byContradiction fun notBefore => apart (List.le_antisymm notBehind notBefore)

theorem eq_sorted_iff {names : List Text} :
    names = whitelist.sorted ↔
      names.Perm whitelist.toList ∧ names.Pairwise fun earlier later => earlier < later := by
  constructor
  · rintro rfl
    exact ⟨sorted_perm whitelist, sorted_ascends whitelist⟩
  · rintro ⟨arranged, ascends⟩
    apply List.Perm.eq_of_pairwise _ ascends (sorted_ascends whitelist)
      (arranged.trans (sorted_perm whitelist).symm)
    intro one other _ _ before behind
    exact absurd behind (List.lt_asymm before)

end Whitelist

end StylePurge
