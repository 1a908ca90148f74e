import StylePurge.Config
import StylePurge.Proofs.FirstAppearance

/-!
Merging configurations. A list that is merged goes on with the entries that it does not
hold yet, each once and in the order in which they first come, so it does not matter in
which order merges are carried out. Along a chain of merges the restrictions on files stay
those of the first member, exclusions only add up, and the banner has to be kept by all.
-/

namespace StylePurge.Config

variable {base other last : Config} {others : List Config}

section AppendNew

variable {entries additions : List Text}

theorem append_new_concat (entries additions : List Text) (last : Text) :
    appendNew entries (additions ++ [last]) =
      if last ∈ appendNew entries additions then appendNew entries additions
      else appendNew entries additions ++ [last] := by
  have step : appendNew entries (additions ++ [last]) =
      if (appendNew entries additions).contains last then appendNew entries additions
      else appendNew entries additions ++ [last] := by
    rw [appendNew, List.foldl_append]
    rfl
  simp only [step, List.contains_iff_mem]

/-- What is appended are the distinct additions that are not among the entries. -/
theorem append_new_eq (entries additions : List Text) :
    appendNew entries additions =
      entries ++ (OrderedSet.ofList additions).toList.filter fun addition =>
        decide (addition ∉ entries) := by
  induction additions using List.reverseRecOn with
  | nil => exact (List.append_nil entries).symm
  | append_singleton front last induction =>
      have known :
          last ∈ appendNew entries front ↔ last ∈ entries ∨ last ∈ OrderedSet.ofList front := by
        rw [induction, List.mem_append, List.mem_filter, decide_eq_true_eq,
          OrderedSet.mem_iff_mem_to_list]
        tauto
      rw [append_new_concat, OrderedSet.of_list_concat, OrderedSet.to_list_insert]
      by_cases again : last ∈ OrderedSet.ofList front
      · rw [if_pos (known.2 (.inr again)), if_pos again, induction]
      · rw [if_neg again, List.filter_append, ← List.append_assoc, ← induction]
        by_cases old : last ∈ entries
        · rw [if_pos (known.2 (.inl old))]
          simp [old]
        · rw [if_neg (fun member => (known.1 member).elim old again)]
          simp [old]

theorem mem_append_new {entry : Text} :
    entry ∈ appendNew entries additions ↔ entry ∈ entries ∨ entry ∈ additions := by
  rw [append_new_eq, List.mem_append, List.mem_filter, decide_eq_true_eq,
    ← OrderedSet.mem_iff_mem_to_list, OrderedSet.mem_of_list]
  tauto

theorem append_new_known (known : ∀ addition ∈ additions, addition ∈ entries) :
    appendNew entries additions = entries := by
  rw [append_new_eq, List.filter_eq_nil_iff.2, List.append_nil]
  intro addition member new
  exact of_decide_eq_true new (known addition (OrderedSet.mem_of_list.1 member))

theorem append_new_assoc (entries additions others : List Text) :
    appendNew (appendNew entries additions) others =
      appendNew entries (appendNew additions others) := by
  induction others using List.reverseRecOn with
  | nil => rfl
  | append_singleton front last induction =>
      rw [append_new_concat, append_new_concat]
      by_cases known : last ∈ appendNew additions front
      · have member : last ∈ appendNew (appendNew entries additions) front := by
          rw [induction]
          exact mem_append_new.2 (.inr known)
        rw [if_pos known, if_pos member, induction]
      · rw [if_neg known, append_new_concat, induction]

/-- The entries stand in front as they were, and behind them the additions that are not
among them, each once and in the order in which they first come. -/
def Extends (entries additions merged : List Text) : Prop :=
  ∃ added, merged = entries ++ added ∧ added.Nodup ∧
    (∀ entry, entry ∈ added ↔ entry ∈ additions ∧ entry ∉ entries) ∧
    OrderedSet.ByFirstPlace additions added

theorem append_new_extends (entries additions : List Text) :
    Extends entries additions (appendNew entries additions) := by
  refine ⟨_, append_new_eq entries additions, ?_, fun entry => ?_, ?_⟩
  · exact (OrderedSet.ofList additions).distinct.filter _
  · rw [List.mem_filter, decide_eq_true_eq, ← OrderedSet.mem_iff_mem_to_list,
      OrderedSet.mem_of_list]
  · exact (OrderedSet.of_list_by_first_place additions).filter _

end AppendNew

theorem merge_assoc (base other last : Config) :
    (base.merge other).merge last = base.merge (other.merge last) := by
  simp only [merge, append_new_assoc, Bool.and_assoc, Config.mk.injEq, true_and, and_true]
  by_cases empty : last.content.isEmpty = true
  · simp only [if_pos empty]
  · simp only [if_neg empty]

theorem merge_self (config : Config) : config.merge config = config := by
  have safelist := append_new_known fun entry (member : entry ∈ config.safelist) => member
  have exclude := append_new_known fun entry (member : entry ∈ config.exclude) => member
  rw [merge, safelist, exclude, ite_self, Bool.and_self]

theorem merge_default (config : Config) : config.merge default = config := by
  have kept : (config.keepBanner && default.keepBanner) = config.keepBanner := Bool.and_true _
  rw [merge, kept]
  rfl

/-- What restricts a run does not get lost along a chain of merges: the restrictions on files
are those of the first member, what any member excludes is excluded, and the banner is kept
only if all members keep it. -/
structure Restricts (members : List Config) (merged : Config) : Prop where
  limits : members.head?.map Config.limits = some merged.limits
  exclude : ∀ pattern, pattern ∈ merged.exclude ↔ ∃ member ∈ members, pattern ∈ member.exclude
  keepBanner : merged.keepBanner = true ↔ ∀ member ∈ members, member.keepBanner = true

theorem restricts_merge {members : List Config} {merged : Config} (next : Config)
    (chain : Restricts members merged) : Restricts (members ++ [next]) (merged.merge next) where
  limits := by
    obtain ⟨first, rest, rfl⟩ : ∃ first rest, members = first :: rest := by
      cases members with
      | nil => exact nomatch chain.limits
      | cons first rest => exact ⟨first, rest, rfl⟩
    exact chain.limits
  exclude := by
    intro pattern
    rw [merge, mem_append_new, chain.exclude]
    simp [or_and_right, exists_or]
  keepBanner := by
    rw [merge, Bool.and_eq_true, chain.keepBanner]
    simp [or_imp, forall_and]

theorem restricts_chain (base : Config) (others : List Config) :
    Restricts (base :: others) (others.foldl merge base) := by
  induction others using List.reverseRecOn with
  | nil => exact ⟨rfl, by simp, by simp⟩
  | append_singleton front next induction =>
      rw [List.foldl_append]
      exact restricts_merge next induction

/-- Merging does not depend on where it starts, changes nothing when there is nothing new, and
loses no entry and no restriction. -/
theorem merge_laws (base other last : Config) (others : List Config) :
    (base.merge other).merge last = base.merge (other.merge last) ∧
      base.merge base = base ∧ base.merge default = base ∧
      Extends base.safelist other.safelist (base.merge other).safelist ∧
      Extends base.exclude other.exclude (base.merge other).exclude ∧
      Restricts (base :: others) (others.foldl merge base) :=
  ⟨merge_assoc base other last, merge_self base, merge_default base,
    append_new_extends base.safelist other.safelist, append_new_extends base.exclude other.exclude,
    restricts_chain base others⟩

end StylePurge.Config
