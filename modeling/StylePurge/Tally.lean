import StylePurge.Text

/-!
Counts by class name, in the order in which the names first arrived. No name is
listed twice.
-/

namespace StylePurge

structure Tally where
  entries : List (Text × Nat)
  distinct : (entries.map Prod.fst).Nodup

namespace Tally

def empty : Tally := ⟨[], List.nodup_nil⟩

instance : Inhabited Tally := ⟨empty⟩

def names (tally : Tally) : List Text := tally.entries.map Prod.fst

def count (tally : Tally) (name : Text) : Nat :=
  match tally.entries.find? fun entry => entry.1 == name with
  | some entry => entry.2
  | none => 0

def adjust (change : Nat → Nat) (name : Text) (entry : Text × Nat) : Text × Nat :=
  if entry.1 = name then (entry.1, change entry.2) else entry

theorem adjust_name (change : Nat → Nat) (name : Text) (entry : Text × Nat) :
    (adjust change name entry).1 = entry.1 := by
  unfold adjust
  split <;> rfl

/-- Applies `change` to the count of a name; a new name starts at `change 0` and
goes to the end. -/
def update (tally : Tally) (change : Nat → Nat) (name : Text) : Tally :=
  if known : name ∈ tally.names then
    ⟨tally.entries.map (adjust change name), by
      have same : (tally.entries.map (adjust change name)).map Prod.fst =
          tally.entries.map Prod.fst := by
        rw [List.map_map]
        exact List.map_congr_left fun entry _ => adjust_name change name entry
      rw [same]
      exact tally.distinct⟩
  else
    ⟨tally.entries ++ [(name, change 0)], by
      rw [List.map_append]
      refine List.nodup_append.2
        ⟨tally.distinct, List.nodup_cons.2 ⟨List.not_mem_nil, List.nodup_nil⟩, ?_⟩
      intro old member new newMember
      simp only [List.map_cons, List.map_nil, List.mem_singleton] at newMember
      subst newMember
      intro same
      exact known (same ▸ member)⟩

def increment (tally : Tally) (name : Text) : Tally := tally.update (· + 1) name

/-- A name given again takes the new count at its old place. -/
def set (tally : Tally) (name : Text) (count : Nat) : Tally := tally.update (fun _ => count) name

def ofPairs (pairs : List (Text × Nat)) : Tally :=
  pairs.foldl (fun tally pair => tally.set pair.1 pair.2) empty

def retain (tally : Tally) (keep : Text → Bool) : Tally :=
  ⟨tally.entries.filter fun entry => keep entry.1,
    (List.filter_sublist.map Prod.fst).nodup tally.distinct⟩

end Tally

end StylePurge
