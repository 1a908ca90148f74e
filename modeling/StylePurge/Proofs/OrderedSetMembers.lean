import StylePurge.OrderedSet

/-!
Membership in an ordered set: one law for each operation. Elements that are new and
distinct go to the end as they come.
-/

namespace StylePurge.OrderedSet

variable {Element : Type} [DecidableEq Element] {element : Element}

omit [DecidableEq Element] in
theorem not_mem_empty : element ∉ (empty : OrderedSet Element) := List.not_mem_nil

theorem contains_iff {set : OrderedSet Element} : set.contains element = true ↔ element ∈ set :=
  decide_eq_true_iff

theorem is_subset_iff {left right : OrderedSet Element} :
    left.isSubset right = true ↔ ∀ element ∈ left, element ∈ right := by
  simp only [isSubset, List.all_eq_true, contains_iff, mem_iff_mem_to_list]

theorem mem_insert {set : OrderedSet Element} {new : Element} :
    element ∈ set.insert new ↔ element ∈ set ∨ element = new := by
  rw [mem_iff_mem_to_list, to_list_insert]
  by_cases known : new ∈ set
  · rw [if_pos known]
    refine ⟨.inl, fun member => ?_⟩
    rcases member with old | rfl
    · exact old
    · exact known
  · rw [if_neg known, List.mem_append, List.mem_singleton]
    exact Iff.rfl

theorem mem_insert_all {set : OrderedSet Element} {elements : List Element} :
    element ∈ set.insertAll elements ↔ element ∈ set ∨ element ∈ elements := by
  induction elements generalizing set with
  | nil => exact ⟨.inl, fun member => member.resolve_right List.not_mem_nil⟩
  | cons first rest induction =>
      change element ∈ (set.insert first).insertAll rest ↔ _
      rw [induction, mem_insert, List.mem_cons, or_assoc]

theorem mem_of_list {elements : List Element} : element ∈ ofList elements ↔ element ∈ elements := by
  rw [ofList, mem_insert_all]
  exact ⟨fun member => member.resolve_left not_mem_empty, .inr⟩

theorem mem_union {left right : OrderedSet Element} :
    element ∈ left.union right ↔ element ∈ left ∨ element ∈ right := mem_insert_all

/-- What is inserted never moves what is there. -/
theorem to_list_prefix_insert_all (set : OrderedSet Element) (elements : List Element) :
    set.toList <+: (set.insertAll elements).toList := by
  induction elements generalizing set with
  | nil => exact List.prefix_refl set.toList
  | cons first rest induction =>
      have grown : set.toList <+: (set.insert first).toList := by
        rw [to_list_insert]
        split
        · exact List.prefix_refl set.toList
        · exact List.prefix_append set.toList [first]
      exact grown.trans (induction (set.insert first))

theorem insert_all_new (set : OrderedSet Element) (elements : List Element)
    (new : (set.toList ++ elements).Nodup) :
    (set.insertAll elements).toList = set.toList ++ elements := by
  induction elements generalizing set with
  | nil => exact (List.append_nil set.toList).symm
  | cons first rest induction =>
      have unknown : first ∉ set := by
        intro known
        exact (List.nodup_append.1 new).2.2 first known first List.mem_cons_self rfl
      have grown : (set.insert first).toList = set.toList ++ [first] := by
        rw [to_list_insert, if_neg unknown]
      have onward := induction (set.insert first) (by simpa [grown] using new)
      change ((set.insert first).insertAll rest).toList = _
      rw [onward, grown, List.append_assoc, List.singleton_append]

theorem of_list_to_list (set : OrderedSet Element) : ofList set.toList = set := by
  apply eq_of_to_list
  rw [ofList, insert_all_new]
  · rfl
  · exact set.distinct

end StylePurge.OrderedSet
