import StylePurge.Path
import StylePurge.Proofs.FirstAppearance

/-!
Paths in the spelling that comes first. Two paths with the same components are the same path,
so a list of paths may name one of them several times; the first time counts.
-/

namespace StylePurge.Content

/-- Of every path the spelling that comes first. -/
def firsts : List Path → List Path
  | [] => []
  | path :: paths => path :: (firsts paths).filter fun other => !other.same path

theorem firsts_concat (paths : List Path) (last : Path) :
    firsts (paths ++ [last]) =
      if last.components ∈ paths.map Path.components then firsts paths
      else firsts paths ++ [last] := by
  induction paths with
  | nil => rfl
  | cons path paths induction =>
      rw [List.cons_append, firsts, firsts, induction]
      by_cases again : last.components = path.components
      · have known : last.components ∈ (path :: paths).map Path.components := by
          rw [again]
          exact List.mem_cons_self
        have dropped : (!last.same path) = false := by simp [Path.same, again]
        rw [if_pos known]
        split
        · rfl
        · rw [List.filter_append, List.filter_cons_of_neg (by simp [dropped])]
          simp
      · have kept : [last].filter (fun other => !other.same path) = [last] := by
          simp [Path.same, again]
        have later : last.components ∈ (path :: paths).map Path.components ↔
            last.components ∈ paths.map Path.components := by
          rw [List.map_cons, List.mem_cons, or_iff_right again]
        by_cases known : last.components ∈ paths.map Path.components
        · rw [if_pos known, if_pos (later.2 known)]
        · rw [if_neg known, if_neg (mt later.1 known), List.filter_append, kept]
          rfl

theorem components_firsts (paths : List Path) :
    (firsts paths).map Path.components =
      (OrderedSet.ofList (paths.map Path.components)).toList := by
  induction paths using List.reverseRecOn with
  | nil => rfl
  | append_singleton front last induction =>
      rw [firsts_concat, List.map_append, List.map_singleton, OrderedSet.of_list_concat,
        OrderedSet.to_list_insert, ← induction]
      by_cases known : last.components ∈ front.map Path.components
      · rw [if_pos known, if_pos (OrderedSet.mem_of_list.2 known)]
      · rw [if_neg known, if_neg (fun member => known (OrderedSet.mem_of_list.1 member)),
          List.map_append, List.map_singleton]

/-- The path in the spelling in which it comes first. -/
def FirstSpelled (paths : List Path) (path : Path) : Prop :=
  ∃ front behind, paths = front ++ path :: behind ∧
    ∀ other ∈ front, other.components ≠ path.components

theorem mem_firsts {paths : List Path} {path : Path} :
    path ∈ firsts paths ↔ FirstSpelled paths path := by
  induction paths with
  | nil => simp [firsts, FirstSpelled]
  | cons first paths induction =>
      rw [firsts, List.mem_cons, List.mem_filter, induction, Bool.not_eq_true', Path.same,
        beq_eq_false_iff_ne]
      constructor
      · rintro (rfl | ⟨⟨front, behind, rfl, before⟩, other⟩)
        · exact ⟨[], paths, rfl, fun _ member => absurd member List.not_mem_nil⟩
        · refine ⟨first :: front, behind, rfl, ?_⟩
          intro earlier member
          rcases List.mem_cons.1 member with rfl | inFront
          · exact other.symm
          · exact before earlier inFront
      · rintro ⟨front, behind, split, before⟩
        cases front with
        | nil => exact .inl (List.cons.inj split).1.symm
        | cons head front =>
            obtain ⟨rfl, rfl⟩ := List.cons.inj split
            exact .inr ⟨⟨front, behind, rfl, fun other member =>
              before other (List.mem_cons_of_mem _ member)⟩, (before _ List.mem_cons_self).symm⟩

theorem of_first_spelled {paths : List Path} {path : Path} (first : FirstSpelled paths path) :
    path ∈ paths := by
  obtain ⟨front, behind, rfl, _⟩ := first
  exact List.mem_append_right front List.mem_cons_self

/-- Every path has a first spelling. -/
theorem exists_first_spelled {paths : List Path} {path : Path} (member : path ∈ paths) :
    ∃ first, FirstSpelled paths first ∧ first.components = path.components := by
  have listed : path.components ∈ (firsts paths).map Path.components := by
    rw [components_firsts]
    exact OrderedSet.mem_of_list.2 (List.mem_map_of_mem member)
  obtain ⟨first, found, same⟩ := List.mem_map.1 listed
  exact ⟨first, mem_firsts.1 found, same⟩

end StylePurge.Content
