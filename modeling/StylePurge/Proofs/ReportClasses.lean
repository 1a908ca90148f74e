import StylePurge.Proofs.FirstAppearance
import StylePurge.Proofs.RelevantClasses

/-!
The report's single pass over the rules of a stylesheet. What it has counted after any
number of rules is said by the rules alone; so its two class maps share the classes of
the stylesheet out without overlap, in the order in which the rules first name them,
and each count is taken over all rules, kept or dropped.
-/

namespace StylePurge

namespace Tally

theorem entries_increment (tally : Tally) (name : Text) :
    (tally.increment name).entries =
      if name ∈ tally.names then tally.entries.map (adjust (· + 1) name)
      else tally.entries ++ [(name, 1)] := by
  rw [increment, update]
  by_cases known : name ∈ tally.names
  · rw [dif_pos known, if_pos known]
  · rw [dif_neg known, if_neg known]

/-- What counting names one after the other comes to. -/
def ofNames (names : List Text) : Tally := names.foldl increment empty

theorem of_names_append (first second : List Text) :
    ofNames (first ++ second) = second.foldl increment (ofNames first) :=
  List.foldl_append

/-- Every name has one entry, at its first place, with the number of its places. -/
theorem entries_of_names (names : List Text) :
    (ofNames names).entries =
      (OrderedSet.ofList names).toList.map fun name => (name, names.count name) := by
  induction names using List.reverseRecOn with
  | nil => rfl
  | append_singleton front last induction =>
      have listed : (ofNames front).names = (OrderedSet.ofList front).toList := by
        rw [Tally.names, induction, List.map_map]
        exact List.map_id _
      have step : ofNames (front ++ [last]) = (ofNames front).increment last :=
        of_names_append front [last]
      rw [step, entries_increment, listed, OrderedSet.of_list_concat, OrderedSet.to_list_insert,
        induction]
      by_cases known : last ∈ OrderedSet.ofList front
      · rw [if_pos known, if_pos (OrderedSet.mem_iff_mem_to_list.1 known), List.map_map]
        apply List.map_congr_left
        intro name _
        by_cases same : name = last
        · simp [adjust, same]
        · simp [adjust, same, Ne.symm same]
      · have new : last ∉ front := fun member => known (OrderedSet.mem_of_list.2 member)
        rw [if_neg known, if_neg (mt OrderedSet.mem_iff_mem_to_list.2 known), List.map_append]
        congr 1
        · apply List.map_congr_left
          intro name member
          have other : last ≠ name := by
            rintro rfl
            exact new (OrderedSet.mem_of_list.1 member)
          simp [other]
        · simp [List.count_eq_zero.2 new]

/-- Names that do not matter may be left out before or after. -/
theorem entries_retain_of_names (names : List Text) (keep : Text → Bool) :
    ((ofNames names).retain keep).entries = (ofNames (names.filter keep)).entries := by
  change (ofNames names).entries.filter (fun entry => keep entry.1) = _
  rw [entries_of_names, entries_of_names, OrderedSet.of_list_filter, List.filter_map]
  apply List.map_congr_left
  intro name member
  have matters : keep name = true := List.of_mem_filter member
  rw [List.count_filter matters]

end Tally

namespace Report

variable {whitelist : Whitelist} {rules : List Rule} {counts : Count} {name : Text}

/-- The classes of rules, rule after rule. -/
def mentions (rules : List Rule) : List Text := rules.flatMap fun rule => rule.classes.toList

theorem mem_mentions : name ∈ mentions rules ↔ ∃ rule ∈ rules, name ∈ rule.classes :=
  List.mem_flatMap

/-- No rule mentions a class twice. -/
theorem count_mentions (rules : List Rule) (name : Text) :
    (mentions rules).count name = rules.countP fun rule => rule.classes.contains name := by
  induction rules with
  | nil => rfl
  | cons rule rest induction =>
      have once : rule.classes.toList.count name =
          if rule.classes.contains name = true then 1 else 0 := by
        rw [rule.classes.distinct.count]
        simp only [OrderedSet.contains_iff, OrderedSet.mem_iff_mem_to_list]
      rw [mentions, List.flatMap_cons, List.count_append, ← mentions, induction, once,
        List.countP_cons, Nat.add_comm]

/-- Rules may be left out if nothing that they mention is wanted. -/
theorem mentions_filter {chosen : Rule → Bool} {wanted : Text → Bool}
    (others : ∀ rule ∈ rules, chosen rule = false → ∀ name ∈ rule.classes, wanted name = false) :
    (mentions (rules.filter chosen)).filter wanted = (mentions rules).filter wanted := by
  induction rules with
  | nil => rfl
  | cons rule rest induction =>
      have onward := induction fun other member => others other (List.mem_cons_of_mem rule member)
      have here : (mentions (rule :: rest)).filter wanted =
          rule.classes.toList.filter wanted ++ (mentions rest).filter wanted := by
        rw [mentions, List.flatMap_cons, List.filter_append, ← mentions]
      by_cases picked : chosen rule = true
      · rw [List.filter_cons_of_pos picked, here, ← onward, mentions, List.flatMap_cons,
          List.filter_append, ← mentions]
      · have nothing : rule.classes.toList.filter wanted = [] := by
          rw [List.filter_eq_nil_iff]
          intro name member
          rw [others rule List.mem_cons_self (by simpa using picked) name member]
          exact Bool.false_ne_true
        rw [List.filter_cons_of_neg picked, here, nothing, List.nil_append, onward]

/-- What has been counted when some rules have been passed. -/
structure Counted (whitelist : Whitelist) (rules : List Rule) (counts : Count) : Prop where
  classless : counts.classless = rules.countP Rule.isClassless
  retained : counts.retained = rules.countP (Rule.isKeptBy whitelist)
  dropped : counts.dropped = rules.countP fun rule => !rule.isKeptBy whitelist
  retainedClasses : counts.retainedClasses =
    .ofNames ((mentions (rules.filter (Rule.isKeptBy whitelist))).filter whitelist.contains)
  droppedClasses : counts.droppedClasses =
    .ofNames (mentions (rules.filter fun rule => !rule.isKeptBy whitelist))
  kept : ∀ name, name ∈ counts.kept ↔
    ∃ rule ∈ rules, rule.isKeptBy whitelist = true ∧ name ∈ rule.classes

theorem counted_start : Counted whitelist [] Count.start where
  classless := rfl
  retained := rfl
  dropped := rfl
  retainedClasses := rfl
  droppedClasses := rfl
  kept := by simp [Count.start, OrderedSet.not_mem_empty]

theorem counted_add (counted : Counted whitelist rules counts) (rule : Rule) :
    Counted whitelist (rules ++ [rule]) (counts.add whitelist rule) := by
  obtain ⟨classless, retained, dropped, retainedClasses, droppedClasses, kept⟩ := counted
  by_cases plain : rule.isClassless = true
  · have stays : rule.isKeptBy whitelist = true := by rw [Rule.isKeptBy, plain, Bool.true_or]
    have nothing : rule.classes.toList = [] := List.isEmpty_iff.1 plain
    rw [Count.add, if_pos plain]
    constructor
    · simp [classless, plain]
    · simp [retained, stays]
    · simp [dropped, stays]
    · simp [retainedClasses, stays, mentions, nothing]
    · simp [droppedClasses, stays, mentions]
    · simp [kept, or_and_right, exists_or, OrderedSet.mem_iff_mem_to_list, nothing]
  · by_cases stays : rule.isKeptBy whitelist = true
    · rw [Count.add, if_neg plain, if_pos stays]
      constructor
      · simp [classless, plain]
      · simp [retained, stays]
      · simp [dropped, stays]
      · simp [retainedClasses, stays, mentions, Tally.of_names_append]
      · simp [droppedClasses, stays, mentions]
      · intro name
        rw [OrderedSet.mem_insert_all, kept]
        simp [or_and_right, exists_or, stays, OrderedSet.mem_iff_mem_to_list]
    · rw [Count.add, if_neg plain, if_neg stays]
      constructor
      · simp [classless, plain]
      · simp [retained, stays]
      · simp [dropped, stays]
      · simp [retainedClasses, stays]
      · simp [droppedClasses, stays, mentions, Tally.of_names_append]
      · simp [kept, or_and_right, exists_or, stays]

theorem counted_count (rules : List Rule) (whitelist : Whitelist) :
    Counted whitelist rules (count rules whitelist) := by
  induction rules using List.reverseRecOn with
  | nil => exact counted_start
  | append_singleton passed rule induction =>
      have step : count (passed ++ [rule]) whitelist =
          (count passed whitelist).add whitelist rule := List.foldl_append
      rw [step]
      exact counted_add induction rule

/-- The tally lists the wanted ones among the classes of the rules, each with the
number of rules that select it, in the order in which the rules first name them. -/
structure ClassMap (rules : List Rule) (wanted : Text → Prop) (tally : Tally) : Prop where
  names : ∀ name, name ∈ tally.names ↔ wanted name ∧ ∃ rule ∈ rules, name ∈ rule.classes
  counts : ∀ entry ∈ tally.entries,
    entry.2 = rules.countP fun rule => rule.classes.contains entry.1
  order : OrderedSet.ByFirstPlace (mentions rules) tally.names

theorem class_map_of_entries {tally : Tally} {chosen : Text → Bool} {wanted : Text → Prop}
    (same : ∀ name, chosen name = true ↔ wanted name)
    (entries : tally.entries = (Tally.ofNames ((mentions rules).filter chosen)).entries) :
    ClassMap rules wanted tally := by
  rw [Tally.entries_of_names, OrderedSet.of_list_filter] at entries
  have names : tally.names = (OrderedSet.ofList (mentions rules)).toList.filter chosen := by
    rw [Tally.names, entries, List.map_map]
    exact List.map_id _
  constructor
  · intro name
    rw [names, List.mem_filter, ← OrderedSet.mem_iff_mem_to_list, OrderedSet.mem_of_list,
      mem_mentions, same, and_comm]
  · intro entry member
    rw [entries, List.mem_map] at member
    obtain ⟨name, listed, rfl⟩ := member
    rw [List.count_filter (List.of_mem_filter listed), count_mentions]
  · rw [names]
    exact (OrderedSet.of_list_by_first_place (mentions rules)).filter chosen

theorem retained_class_map (rules : List Rule) (whitelist : Whitelist) :
    ClassMap rules (· ∈ whitelist) (count rules whitelist).retainedClasses := by
  apply class_map_of_entries fun _ => OrderedSet.contains_iff
  rw [(counted_count rules whitelist).retainedClasses, mentions_filter]
  intro rule _ left name selected
  by_contra known
  have stays : rule.isKeptBy whitelist = true :=
    Rule.is_kept_by_iff.2 (.inr ⟨name, selected, OrderedSet.contains_iff.1 (by simpa using known)⟩)
  exact absurd stays (by rw [left]; decide)

theorem dropped_class_map (rules : List Rule) (whitelist : Whitelist) :
    ClassMap rules
      (fun name => ∀ rule ∈ rules, name ∈ rule.classes →
        rule ∉ rules.filter (Rule.isKeptBy whitelist))
      (count rules whitelist).purgedClasses := by
  have counted := counted_count rules whitelist
  have same (name : Text) : (!(count rules whitelist).kept.contains name) = true ↔
      ∀ rule ∈ rules, name ∈ rule.classes → rule ∉ rules.filter (Rule.isKeptBy whitelist) := by
    rw [Bool.not_eq_true', ← Bool.not_eq_true, OrderedSet.contains_iff, counted.kept]
    constructor
    · intro nowhere rule member selected stays
      exact nowhere ⟨rule, member, List.of_mem_filter stays, selected⟩
    · rintro everywhere ⟨rule, member, stays, selected⟩
      exact everywhere rule member selected (List.mem_filter.2 ⟨member, stays⟩)
  apply class_map_of_entries same
  rw [Count.purgedClasses, counted.droppedClasses, Tally.entries_retain_of_names, mentions_filter]
  intro rule member stays name selected
  have known : name ∈ (count rules whitelist).kept :=
    (counted.kept name).2 ⟨rule, member, by simpa using stays, selected⟩
  rw [OrderedSet.contains_iff.2 known, Bool.not_true]

/-- Whitelisted classes of the stylesheet make up the one map, classes whose rules were
all dropped the other. No class is in both, and no dropped class is whitelisted. -/
theorem class_maps_of_purge (sheet : Stylesheet) (whitelist : Whitelist) (generatedAt : Timestamp)
    (inputSize : Nat) (output : Text) :
    let report := ofPurge generatedAt sheet whitelist inputSize output
    ClassMap sheet.rules (· ∈ whitelist) report.retainedClasses ∧
      ClassMap sheet.rules
        (fun name => ∀ rule ∈ sheet.rules, name ∈ rule.classes → rule ∉ sheet.keptRules whitelist)
        report.droppedClasses ∧
      ∀ name ∈ report.droppedClasses.names,
        name ∉ report.retainedClasses.names ∧ name ∉ whitelist := by
  intro report
  have retained : ClassMap sheet.rules (· ∈ whitelist) report.retainedClasses :=
    retained_class_map sheet.rules whitelist
  have dropped : ClassMap sheet.rules
      (fun name => ∀ rule ∈ sheet.rules, name ∈ rule.classes → rule ∉ sheet.keptRules whitelist)
      report.droppedClasses := dropped_class_map sheet.rules whitelist
  refine ⟨retained, dropped, ?_⟩
  intro name listed
  obtain ⟨everywhere, rule, member, selected⟩ := (dropped.names name).1 listed
  have unknown : name ∉ whitelist := by
    intro known
    have stays : rule.isKeptBy whitelist = true :=
      Rule.is_kept_by_iff.2 (.inr ⟨name, selected, known⟩)
    exact everywhere rule member selected (List.mem_filter.2 ⟨member, stays⟩)
  refine ⟨?_, unknown⟩
  intro both
  exact unknown ((retained.names name).1 both).1

end Report

end StylePurge
