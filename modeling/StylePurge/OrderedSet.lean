/-!
Sets that remember the order in which their elements first arrived. The list of
elements is the whole state, and it never holds an element twice.
-/

namespace StylePurge

structure OrderedSet (Element : Type) where
  toList : List Element
  distinct : toList.Nodup

namespace OrderedSet

variable {Element : Type} [DecidableEq Element]

def empty : OrderedSet Element := ⟨[], List.nodup_nil⟩

instance : Inhabited (OrderedSet Element) := ⟨empty⟩

instance : Membership Element (OrderedSet Element) :=
  ⟨fun set element => element ∈ set.toList⟩

instance (element : Element) (set : OrderedSet Element) : Decidable (element ∈ set) :=
  inferInstanceAs (Decidable (element ∈ set.toList))

omit [DecidableEq Element] in
theorem mem_iff_mem_to_list {element : Element} {set : OrderedSet Element} :
    element ∈ set ↔ element ∈ set.toList := Iff.rfl

omit [DecidableEq Element] in
theorem eq_of_to_list {left right : OrderedSet Element} (same : left.toList = right.toList) :
    left = right := by
  cases left
  cases right
  cases same
  rfl

instance : DecidableEq (OrderedSet Element) := fun left right =>
  if same : left.toList = right.toList then isTrue (eq_of_to_list same)
  else isFalse fun equal => same (congrArg toList equal)

def size (set : OrderedSet Element) : Nat := set.toList.length

def contains (set : OrderedSet Element) (element : Element) : Bool := decide (element ∈ set)

/-- A new element goes to the end; a known one changes nothing. -/
def insert (set : OrderedSet Element) (element : Element) : OrderedSet Element :=
  if known : element ∈ set.toList then set
  else
    ⟨set.toList ++ [element], by
      refine List.nodup_append.2 ⟨set.distinct, List.nodup_cons.2 ⟨by simp, List.nodup_nil⟩, ?_⟩
      intro old member new newMember
      simp only [List.mem_singleton] at newMember
      subst newMember
      intro same
      exact known (same ▸ member)⟩

theorem to_list_insert (set : OrderedSet Element) (element : Element) :
    (set.insert element).toList =
      if element ∈ set then set.toList else set.toList ++ [element] := by
  unfold insert
  by_cases known : element ∈ set.toList
  · simp [known, mem_iff_mem_to_list]
  · simp [known, mem_iff_mem_to_list]

def insertAll (set : OrderedSet Element) (elements : List Element) : OrderedSet Element :=
  elements.foldl insert set

/-- The distinct elements in order of first appearance. -/
def ofList (elements : List Element) : OrderedSet Element := empty.insertAll elements

def union (left right : OrderedSet Element) : OrderedSet Element := left.insertAll right.toList

def isSubset (left right : OrderedSet Element) : Bool := left.toList.all right.contains

end OrderedSet

end StylePurge
