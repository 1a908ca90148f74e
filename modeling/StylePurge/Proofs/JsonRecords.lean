import StylePurge.Proofs.DecimalText
import StylePurge.Proofs.JsonRoundTrip
import StylePurge.Report.Document

/-!
Records as objects. A field without a value is left out, and reading finds every field by
its name, so a record is read back with its missing fields missing.
-/

namespace StylePurge.Json

open Report (optionalMember)

section Fields

theorem map_m_found {First Second : Type} {convert : First → Option Second}
    {target : First → Second} {items : List First}
    (found : ∀ item ∈ items, convert item = some (target item)) :
    items.mapM convert = some (items.map target) := by
  induction items with
  | nil => rfl
  | cons first rest induction =>
      rw [List.mapM_cons, found first List.mem_cons_self,
        induction fun item member => found item (List.mem_cons_of_mem first member)]
      rfl

/-- The members of a record with these fields. -/
def present (fields : List (String × Option Json)) : List (Literal × Json) :=
  fields.flatMap fun field => optionalMember field.1 id field.2

def named (fields : List (String × Option Json)) : List (Text × Json) :=
  fields.flatMap fun field => field.2.toList.map fun value => (field.1.toList, value)

variable {fields : List (String × Option Json)}

theorem optional_member_map {Value : Type} (name : String) (encode : Value → Json)
    (value : Option Value) :
    optionalMember name id (value.map encode) = optionalMember name encode value := by
  cases value <;> rfl

theorem optional_member_some (name : String) (value : Json) :
    optionalMember name id (some value) = [Report.member name value] := rfl

theorem members_present (fields : List (String × Option Json)) :
    members? (.object (present fields)) = some (named fields) := by
  rw [members?]
  induction fields with
  | nil => rfl
  | cons field rest induction =>
      obtain ⟨name, value⟩ := field
      rw [present, List.flatMap_cons, List.mapM_append, ← present, induction]
      cases value <;> rfl

theorem named_of_other {name : String} (other : name ∉ fields.map Prod.fst) :
    (named fields).filter (fun member => member.1 == name.toList) = [] := by
  rw [List.filter_eq_nil_iff]
  intro member found
  obtain ⟨field, listed, value⟩ := List.mem_flatMap.1 found
  obtain ⟨_, _, rfl⟩ := List.mem_map.1 value
  rw [beq_iff_eq, String.toList_inj]
  rintro rfl
  exact other (List.mem_map_of_mem listed)

theorem named_of_field (distinct : (fields.map Prod.fst).Nodup) {name : String}
    {value : Option Json} (listed : (name, value) ∈ fields) :
    (named fields).filter (fun member => member.1 == name.toList) =
      value.toList.map fun value => (name.toList, value) := by
  induction fields with
  | nil => exact absurd listed List.not_mem_nil
  | cons field rest induction =>
      rw [List.map_cons, List.nodup_cons] at distinct
      rw [named, List.flatMap_cons, List.filter_append, ← named]
      rcases List.mem_cons.1 listed with rfl | later
      · rw [named_of_other distinct.1, List.append_nil, List.filter_eq_self]
        intro member found
        obtain ⟨_, _, rfl⟩ := List.mem_map.1 found
        exact beq_self_eq_true _
      · have other : field.1 ≠ name := by
          rintro rfl
          exact distinct.1 (List.mem_map.2 ⟨_, later, rfl⟩)
        have apart : named [field] = field.2.toList.map fun value => (field.1.toList, value) :=
          List.flatMap_singleton ..
        rw [← apart, named_of_other (by simpa using other.symm), List.nil_append,
          induction distinct.2 later]

/-- The fields of a record are found by their names, the missing ones as missing. -/
theorem fields_of_present (fields : List (String × Option Json)) (names : List String)
    (distinct : names.Nodup) (listed : names = fields.map Prod.fst) (shortness : Shortness) :
    fields? names shortness (.object (present fields)) = some (fields.map Prod.snd) := by
  subst listed
  rw [fields?, members_present, Option.bind_eq_bind, Option.bind_some, List.mapM_map]
  apply map_m_found
  intro field member
  rw [Function.comp_apply, field?, named_of_field distinct member]
  cases field.2 <;> rfl

end Fields

section Decoders

variable {Value : Type} {decode : Json → Option Value} {encode : Value → Json}

theorem optional_map (value : Option Value) (solid : ∀ value, encode value ≠ .null)
    (reads : ∀ inner ∈ value, decode (encode inner) = some inner) :
    optional decode (value.map encode) = some value := by
  cases value with
  | none => rfl
  | some inner =>
      have read := reads inner rfl
      rw [Option.map_some, optional, read]
      · rfl
      · exact fun same => solid inner same

theorem word_of_nat {number : Nat} (word : number < Text.wordLimit) :
    word? (ofNat number) = some number := by
  rw [ofNat, word?, Text.to_nat_of_nat, Option.bind_some, Text.word?, if_pos word]

end Decoders

section WellFormed

theorem members_well_formed_iff {members : List (Literal × Json)} :
    MembersWellFormed members ↔ ∀ member ∈ members, member.2.WellFormed := by
  induction members with
  | nil => simp [MembersWellFormed]
  | cons member rest induction =>
      rw [MembersWellFormed, induction, List.forall_mem_cons]

theorem present_well_formed {fields : List (String × Option Json)}
    (wellFormed : ∀ field ∈ fields, ∀ value ∈ field.2, value.WellFormed) :
    (Json.object (present fields)).WellFormed := by
  rw [WellFormed, members_well_formed_iff]
  intro member found
  obtain ⟨⟨name, value⟩, listed, inside⟩ := List.mem_flatMap.1 found
  cases value with
  | none => exact absurd inside List.not_mem_nil
  | some value =>
      obtain rfl := List.mem_singleton.1 inside
      exact wellFormed _ listed value rfl

theorem some_well_formed {document : Json} (wellFormed : document.WellFormed) :
    ∀ value ∈ some document, value.WellFormed := by
  intro value found
  obtain rfl := Option.some.inj found
  exact wellFormed

theorem map_well_formed {Value : Type} {encode : Value → Json}
    (always : ∀ value, (encode value).WellFormed) (value : Option Value) :
    ∀ document ∈ value.map encode, document.WellFormed := by
  intro document found
  obtain ⟨inner, _, rfl⟩ := Option.map_eq_some_iff.1 found
  exact always inner

theorem of_text_well_formed (text : Text) : (ofText text).WellFormed := trivial

theorem of_nat_well_formed (number : Nat) : (ofNat number).WellFormed := by
  rw [ofNat, WellFormed]
  exact Text.is_number_of_nat number

end WellFormed

end StylePurge.Json
