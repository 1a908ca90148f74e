import Mathlib.Data.List.Basic
import Mathlib.Data.List.Induction
import StylePurge.Proofs.OrderedSetMembers

/-!
The order of an ordered set. Elements stand where they first appear in what was
inserted: an element that is there already changes nothing, and leaving elements out
before or after comes to the same.
-/

namespace StylePurge.OrderedSet

variable {Element : Type} [DecidableEq Element] {element : Element}

theorem insert_known {set : OrderedSet Element} (known : element ∈ set) :
    set.insert element = set := by
  apply eq_of_to_list
  rw [to_list_insert, if_pos known]

theorem insert_all_append (set : OrderedSet Element) (first second : List Element) :
    set.insertAll (first ++ second) = (set.insertAll first).insertAll second :=
  List.foldl_append

theorem of_list_append (first second : List Element) :
    ofList (first ++ second) = (ofList first).insertAll second :=
  insert_all_append empty first second

theorem of_list_concat (elements : List Element) (last : Element) :
    ofList (elements ++ [last]) = (ofList elements).insert last :=
  of_list_append elements [last]

/-- Elements that come again later need not come with the set. -/
theorem union_of_list (set : OrderedSet Element) (elements : List Element) :
    set.union (ofList elements) = set.insertAll elements := by
  induction elements using List.reverseRecOn with
  | nil => rfl
  | append_singleton front last induction =>
      rw [of_list_concat, insert_all_append, ← induction, union, union, to_list_insert]
      by_cases known : last ∈ ofList front
      · rw [if_pos known]
        exact (insert_known (mem_insert_all.2 (.inr known))).symm
      · rw [if_neg known, insert_all_append]

/-- The elements stand in the order in which the source first names them, and none
stands twice. -/
def ByFirstPlace (source elements : List Element) : Prop :=
  elements.Pairwise fun earlier later => source.idxOf earlier < source.idxOf later

/-- Of two elements the one that comes first decides. -/
theorem by_first_place_cons {first earlier later : Element} {rest : List Element} :
    ByFirstPlace (first :: rest) [earlier, later] ↔
      first ≠ later ∧ (first = earlier ∨ ByFirstPlace rest [earlier, later]) := by
  rw [ByFirstPlace, ByFirstPlace, List.pairwise_pair, List.pairwise_pair]
  by_cases isLater : first = later
  · subst isLater
    simp
  · by_cases isEarlier : first = earlier
    · subst isEarlier
      simp [List.idxOf_cons_ne _ isLater, isLater]
    · rw [List.idxOf_cons_ne _ isLater, List.idxOf_cons_ne _ isEarlier]
      simp [isLater, isEarlier]

theorem of_list_by_first_place (elements : List Element) :
    ByFirstPlace elements (ofList elements).toList := by
  induction elements using List.reverseRecOn with
  | nil => exact .nil
  | append_singleton front last induction =>
      have known {element : Element} (member : element ∈ (ofList front).toList) :
          element ∈ front := mem_of_list.1 member
      have extended : ByFirstPlace (front ++ [last]) (ofList front).toList := by
        apply induction.imp_of_mem
        intro earlier later earlierMember laterMember before
        rw [List.idxOf_append_of_mem (known earlierMember),
          List.idxOf_append_of_mem (known laterMember)]
        exact before
      rw [of_list_concat, to_list_insert]
      by_cases again : last ∈ ofList front
      · rw [if_pos again]
        exact extended
      · have new : last ∉ front := fun member => again (mem_of_list.2 member)
        rw [if_neg again, ByFirstPlace, List.pairwise_append]
        refine ⟨extended, List.pairwise_singleton _ _, ?_⟩
        intro earlier member later single
        obtain rfl := List.mem_singleton.1 single
        rw [List.idxOf_append_of_mem (known member), List.idxOf_append_of_notMem new]
        exact Nat.lt_add_right _ (List.idxOf_lt_length_of_mem (known member))

/-- Where the elements of the source stand at ascending places, the one that comes first
stands at a place in front of all places of the other. -/
theorem first_place_of_ascending {placed : List (Nat × Element)} {earlier later : Element}
    (ascending : placed.Pairwise fun one other => one.1 < other.1)
    (member : earlier ∈ placed.map Prod.snd)
    (order : ByFirstPlace (placed.map Prod.snd) [earlier, later]) :
    ∃ place, (place, earlier) ∈ placed ∧ ∀ other, (other, later) ∈ placed → place < other := by
  induction placed with
  | nil => exact absurd member List.not_mem_nil
  | cons first rest induction =>
      obtain ⟨place, element⟩ := first
      obtain ⟨behind, others⟩ := List.pairwise_cons.1 ascending
      obtain ⟨notLater, first⟩ := by_first_place_cons.1 order
      have laterBehind (other : Nat) (there : (other, later) ∈ (place, element) :: rest) :
          (other, later) ∈ rest := by
        apply (List.mem_cons.1 there).resolve_left
        rintro same
        exact notLater (Prod.mk.inj same).2.symm
      by_cases starts : element = earlier
      · subst starts
        exact ⟨place, List.mem_cons_self, fun other there => behind _ (laterBehind other there)⟩
      · have inRest := (List.mem_cons.1 member).resolve_left (Ne.symm starts)
        obtain ⟨found, stands, before⟩ := induction others inRest (first.resolve_left starts)
        exact ⟨found, List.mem_cons_of_mem _ stands,
          fun other there => before other (laterBehind other there)⟩

theorem of_list_filter (elements : List Element) (wanted : Element → Bool) :
    (ofList (elements.filter wanted)).toList = (ofList elements).toList.filter wanted := by
  induction elements using List.reverseRecOn with
  | nil => rfl
  | append_singleton front last induction =>
      rw [List.filter_append, of_list_concat, to_list_insert]
      by_cases chosen : wanted last = true
      · have same : last ∈ ofList (front.filter wanted) ↔ last ∈ ofList front := by
          simp [mem_of_list, chosen]
        have lone : [last].filter wanted = [last] := by simp [chosen]
        rw [lone, of_list_concat, to_list_insert]
        by_cases known : last ∈ ofList front
        · rw [if_pos known, if_pos (same.2 known), induction]
        · rw [if_neg known, if_neg (mt same.1 known), induction, List.filter_append, lone]
      · have none : [last].filter wanted = [] := by simp [chosen]
        rw [none, List.append_nil, induction]
        by_cases known : last ∈ ofList front
        · rw [if_pos known]
        · rw [if_neg known, List.filter_append, none, List.append_nil]

end StylePurge.OrderedSet
