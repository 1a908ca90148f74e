import Mathlib.Data.List.Induction
import StylePurge.Proofs.OrderedSetMembers
import StylePurge.Proofs.SortedNames
import StylePurge.Whitelist.Shelf

/-!
Whitelists over runs of additions. Every addition inserts the names that it brings, so a run
only appends to whitelists, and a whitelist holds the names that it was given on the way. What
is told of the growth of a whitelist is the growth of its list.
-/

namespace StylePurge.Shelf

variable {Label : Type} {shelf start : Shelf Label} {label : Label} {name : Text}

/-- The names that the steps have given to a whitelist: those that it held at the start, those
that were added to it, and those that another whitelist had been given when it was merged. -/
inductive Given (start : Shelf Label) : List (Step Label) → Label → Text → Prop where
  | start {label : Label} {name : Text} (held : name ∈ start.whitelist label) :
      Given start [] label name
  | before {steps : List (Step Label)} {last : Step Label} {label : Label} {name : Text}
      (given : Given start steps label name) : Given start (steps ++ [last]) label name
  | insert {steps : List (Step Label)} {label : Label} {name : Text} :
      Given start (steps ++ [⟨label, .insert name⟩]) label name
  | markup {steps : List (Step Label)} {label : Label} {markup name : Text}
      (used : name ∈ Markup.classes markup) :
      Given start (steps ++ [⟨label, .addMarkup markup⟩]) label name
  | extend {steps : List (Step Label)} {label : Label} {names : List Text} {name : Text}
      (listed : name ∈ names) : Given start (steps ++ [⟨label, .extend names⟩]) label name
  | merge {steps : List (Step Label)} {label other : Label} {name : Text}
      (given : Given start steps other name) :
      Given start (steps ++ [⟨label, .merge other⟩]) label name

def brought (shelf : Shelf Label) : Addition Label → List Text
  | .insert name => [name]
  | .addMarkup markup => (Markup.classes markup).toList
  | .extend names => names
  | .merge other => (shelf.whitelist other).toList

theorem added_eq (shelf : Shelf Label) (whitelist : Whitelist) (addition : Addition Label) :
    (shelf.addTo whitelist addition).1 = whitelist.insertAll (shelf.brought addition) := by
  cases addition with
  | insert name => rfl
  | addMarkup markup => rfl
  | extend names => rfl
  | merge other => rfl

variable [DecidableEq Label]

theorem whitelist_added (shelf : Shelf Label) (step : Step Label) :
    (shelf.step step).1.whitelist step.label =
      (shelf.whitelist step.label).insertAll (shelf.brought step.addition) := by
  rw [← added_eq]
  exact if_pos rfl

theorem whitelist_beside {step : Step Label} (beside : label ≠ step.label) :
    (shelf.step step).1.whitelist label = shelf.whitelist label := if_neg beside

theorem mem_step {step : Step Label} :
    name ∈ (shelf.step step).1.whitelist label ↔
      name ∈ shelf.whitelist label ∨ label = step.label ∧ name ∈ shelf.brought step.addition := by
  by_cases same : label = step.label
  · subst same
    rw [whitelist_added, OrderedSet.mem_insert_all]
    simp only [true_and]
  · rw [whitelist_beside same]
    simp only [same, false_and, or_false]

theorem prefix_step (shelf : Shelf Label) (step : Step Label) (label : Label) :
    (shelf.whitelist label).toList <+: ((shelf.step step).1.whitelist label).toList := by
  by_cases same : label = step.label
  · subst same
    rw [whitelist_added]
    exact OrderedSet.to_list_prefix_insert_all _ _
  · have unmoved : (shelf.step step).1.whitelist label = shelf.whitelist label :=
      whitelist_beside same
    simp only [unmoved, List.prefix_refl]

theorem prefix_run (shelf : Shelf Label) (steps : List (Step Label)) (label : Label) :
    (shelf.whitelist label).toList <+: ((shelf.run steps).whitelist label).toList := by
  induction steps generalizing shelf with
  | nil => exact List.prefix_refl _
  | cons first rest induction =>
      exact (prefix_step shelf first label).trans (induction (shelf.step first).1)

theorem run_append (shelf : Shelf Label) (first second : List (Step Label)) :
    shelf.run (first ++ second) = (shelf.run first).run second := List.foldl_append

theorem run_concat (shelf : Shelf Label) (steps : List (Step Label)) (last : Step Label) :
    shelf.run (steps ++ [last]) = ((shelf.run steps).step last).1 := run_append shelf steps [last]

theorem given_of_mem {steps : List (Step Label)}
    (member : name ∈ (start.run steps).whitelist label) : Given start steps label name := by
  -- What a merge brings is traced under the other label, so the induction is over all labels.
  induction steps using List.reverseRecOn generalizing label with
  | nil => exact .start member
  | append_singleton steps last induction =>
      rw [run_concat, mem_step] at member
      rcases member with old | ⟨rfl, new⟩
      · exact .before (induction old)
      · obtain ⟨label, addition⟩ := last
        cases addition with
        | insert inserted =>
            obtain rfl := List.mem_singleton.1 new
            exact .insert
        | addMarkup markup => exact .markup new
        | extend names => exact .extend new
        | merge other => exact .merge (induction new)

theorem mem_of_given {steps : List (Step Label)} (given : Given start steps label name) :
    name ∈ (start.run steps).whitelist label := by
  have added {steps : List (Step Label)} {addition : Addition Label} {label : Label} {name : Text}
      (new : name ∈ (start.run steps).brought addition) :
      name ∈ (start.run (steps ++ [⟨label, addition⟩])).whitelist label := by
    rw [run_concat, mem_step]
    exact .inr ⟨rfl, new⟩
  induction given with
  | start held => exact held
  | before given induction =>
      rw [run_concat, mem_step]
      exact .inl induction
  | insert => exact added (List.mem_singleton.2 rfl)
  | markup used => exact added used
  | extend listed => exact added listed
  | merge given induction => exact added induction

/-- What becomes of a whitelist that a name is inserted into, with what is told of it. -/
theorem step_insert (shelf : Shelf Label) (label : Label) (name : Text) :
    let inserted := shelf.step ⟨label, .insert name⟩
    (inserted.2 = true ∧
        (inserted.1.whitelist label).toList = (shelf.whitelist label).toList ++ [name]) ∨
      (inserted.2 = false ∧ inserted.1.whitelist label = shelf.whitelist label) := by
  intro inserted
  have told : inserted.2 = !(shelf.whitelist label).contains name := rfl
  have after : inserted.1.whitelist label = (shelf.whitelist label).insert name :=
    whitelist_added shelf ⟨label, .insert name⟩
  rw [after, OrderedSet.to_list_insert]
  by_cases known : name ∈ shelf.whitelist label
  · right
    rw [told, OrderedSet.contains_iff.2 known]
    refine ⟨rfl, OrderedSet.eq_of_to_list ?_⟩
    rw [OrderedSet.to_list_insert, if_pos known]
  · left
    have unknown : (shelf.whitelist label).contains name = false := decide_eq_false known
    rw [told, unknown, if_neg known]
    exact ⟨rfl, rfl⟩

/-- What the caller is told of the next addition is how much the list of the whitelist grows,
and a whitelist that is merged is contained in the one that it is merged into. -/
structure Tells (shelf : Shelf Label) : Prop where
  new : ∀ label name,
    (shelf.step ⟨label, .insert name⟩).2 = true ↔
      ((shelf.step ⟨label, .insert name⟩).1.whitelist label).size =
        (shelf.whitelist label).size + 1
  known : ∀ label name,
    (shelf.step ⟨label, .insert name⟩).2 = false ↔
      (shelf.step ⟨label, .insert name⟩).1.whitelist label = shelf.whitelist label
  count : ∀ label markup (count : Nat),
    (shelf.step ⟨label, .addMarkup markup⟩).2 = count ↔
      ((shelf.step ⟨label, .addMarkup markup⟩).1.whitelist label).size =
        (shelf.whitelist label).size + count
  subset : ∀ label other,
    (shelf.whitelist other).isSubset
      ((shelf.step ⟨label, .merge other⟩).1.whitelist label) = true

theorem tells_growth (shelf : Shelf Label) : Tells shelf where
  new := by
    intro label name
    rcases step_insert shelf label name with ⟨told, grown⟩ | ⟨told, same⟩
    · rw [told, OrderedSet.size, grown, List.length_append]
      exact iff_of_true rfl rfl
    · rw [told, same]
      exact iff_of_false Bool.false_ne_true (Nat.ne_of_lt (Nat.lt_succ_self _))
  known := by
    intro label name
    rcases step_insert shelf label name with ⟨told, grown⟩ | ⟨told, same⟩
    · rw [told]
      refine iff_of_false Bool.false_ne_true.symm fun same => ?_
      rw [same] at grown
      exact List.cons_ne_nil name [] (List.self_eq_append_right.1 grown)
    · exact iff_of_true told same
  count := by
    intro label markup count
    have grown := (prefix_step shelf ⟨label, .addMarkup markup⟩ label).length_le
    have after : (shelf.step ⟨label, .addMarkup markup⟩).1.whitelist label =
        (shelf.whitelist label).addMarkup markup :=
      whitelist_added shelf ⟨label, .addMarkup markup⟩
    have told : (shelf.step ⟨label, .addMarkup markup⟩).2 =
        ((shelf.whitelist label).addMarkup markup).size - (shelf.whitelist label).size := rfl
    rw [after] at grown ⊢
    rw [told]
    exact Nat.sub_eq_iff_eq_add' grown
  subset := by
    intro label other
    rw [OrderedSet.is_subset_iff]
    intro name member
    rw [mem_step]
    exact .inr ⟨rfl, member⟩

/-- Each whitelist holds the names that it was given and no other, none twice, and sorting puts
them into the one order in which they ascend. -/
structure Records (start : Shelf Label) (steps : List (Step Label)) (shelf : Shelf Label) :
    Prop where
  distinct : ∀ label, (shelf.whitelist label).toList.Nodup
  names : ∀ label name, name ∈ shelf.whitelist label ↔ Given start steps label name
  sorted : ∀ label names,
    names = (shelf.whitelist label).sorted ↔
      names.Perm (shelf.whitelist label).toList ∧
        names.Pairwise fun earlier later => earlier < later

theorem records_run (start : Shelf Label) (steps : List (Step Label)) :
    Records start steps (start.run steps) where
  distinct label := ((start.run steps).whitelist label).distinct
  names _ _ := ⟨given_of_mem, mem_of_given⟩
  sorted _ _ := Whitelist.eq_sorted_iff

/-- However additions to several whitelists follow each other, every whitelist records what it
was given, later names stand behind earlier ones, and what is told of its growth is true. -/
theorem filled_side_by_side (start : Shelf Label) (steps : List (Step Label)) :
    Records start steps (start.run steps) ∧ Tells (start.run steps) ∧
      ∀ further label, ((start.run steps).whitelist label).toList <+:
        ((start.run (steps ++ further)).whitelist label).toList := by
  refine ⟨records_run start steps, tells_growth (start.run steps), fun further label => ?_⟩
  rw [run_append]
  exact prefix_run (start.run steps) further label

-- Merging a whitelist into itself adds nothing, and names come in the order of the other list.
example :
    let shelf := (empty : Shelf Bool).run [⟨true, .extend [['b'], ['a']]⟩, ⟨true, .merge true⟩,
      ⟨false, .insert ['a']⟩, ⟨false, .merge true⟩]
    (shelf.whitelist true).toList = [['b'], ['a']] ∧
      (shelf.whitelist false).toList = [['a'], ['b']] := by
  decide

end StylePurge.Shelf
