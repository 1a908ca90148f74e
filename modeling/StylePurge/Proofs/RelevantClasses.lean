import StylePurge.Proofs.OrderedSetMembers
import StylePurge.Proofs.PurgeComposition
import StylePurge.Proofs.SelectorNames
import StylePurge.Report

/-!
A purge asks a whitelist only one thing: whether it holds a class of a rule. So a
larger whitelist keeps more, a union keeps what either part keeps, and whitelists
that answer alike for the classes of a stylesheet lead to the same text and to the
same report, whatever else they hold and in whatever order.
-/

namespace StylePurge

namespace Selector

theorem is_at_rule_of_prelude {text : Text}
    (atSign : (text.dropWhile Text.isBlank).head? = some '@') :
    isAtRule (text.takeWhile (· != '{')) = true := by
  rw [isAtRule, beq_iff_eq]
  induction text with
  | nil => exact nomatch atSign
  | cons character rest induction =>
      by_cases blank : Text.isBlank character = true
      · have notBrace : (character != '{') = true := by
          rw [bne_iff_ne]
          rintro rfl
          exact absurd blank (by decide)
        rw [List.dropWhile_cons_of_pos blank] at atSign
        rw [List.takeWhile_cons_of_pos (p := (· != '{')) notBrace,
          List.dropWhile_cons_of_pos blank]
        exact induction atSign
      · rw [List.dropWhile_cons_of_neg blank, List.head?_cons, Option.some.injEq] at atSign
        rw [List.takeWhile_cons_of_pos (p := (· != '{')) (by rw [atSign]; decide),
          List.dropWhile_cons_of_neg blank, List.head?_cons, atSign]

/-- The prelude of an at-rule names no class, and a statement has no block. -/
theorem classes_of_at_rule {ruleText : Text} (plain : ¬Comment.opener <:+: ruleText)
    (atSign : (ruleText.dropWhile Text.isBlank).head? = some '@') : classes ruleText = .empty := by
  rw [classes, without_comments_of_plain plain, selector_eq]
  by_cases block : '{' ∈ ruleText
  · simp only [if_pos block, is_at_rule_of_prelude atSign, if_true]
  · simp only [if_neg block]

end Selector

namespace Rule

variable {rule : Rule} {first second : Whitelist}

theorem is_kept_by_iff {whitelist : Whitelist} :
    rule.isKeptBy whitelist = true ↔
      rule.isClassless = true ∨ ∃ name ∈ rule.classes, name ∈ whitelist := by
  simp only [isKeptBy, Bool.or_eq_true, List.any_eq_true, OrderedSet.contains_iff,
    OrderedSet.mem_iff_mem_to_list]

theorem is_kept_by_mono (subset : ∀ name ∈ first, name ∈ second)
    (kept : rule.isKeptBy first = true) : rule.isKeptBy second = true := by
  rw [is_kept_by_iff] at kept ⊢
  rcases kept with classless | ⟨name, selected, known⟩
  · exact .inl classless
  · exact .inr ⟨name, selected, subset name known⟩

theorem is_kept_by_union :
    rule.isKeptBy (first.union second) = (rule.isKeptBy first || rule.isKeptBy second) := by
  rw [Bool.eq_iff_iff, Bool.or_eq_true]
  constructor
  · intro kept
    rcases is_kept_by_iff.1 kept with classless | ⟨name, selected, known⟩
    · exact .inl (is_kept_by_iff.2 (.inl classless))
    · rcases OrderedSet.mem_union.1 known with inFirst | inSecond
      · exact .inl (is_kept_by_iff.2 (.inr ⟨name, selected, inFirst⟩))
      · exact .inr (is_kept_by_iff.2 (.inr ⟨name, selected, inSecond⟩))
  · rintro (kept | kept)
    · exact is_kept_by_mono (fun name known => OrderedSet.mem_union.2 (.inl known)) kept
    · exact is_kept_by_mono (fun name known => OrderedSet.mem_union.2 (.inr known)) kept

theorem is_kept_by_empty : rule.isKeptBy .empty = rule.isClassless := by
  rw [Bool.eq_iff_iff, is_kept_by_iff]
  constructor
  · rintro (classless | ⟨name, _, known⟩)
    · exact classless
    · exact absurd known OrderedSet.not_mem_empty
  · exact .inl

/-- Both whitelists know the same classes of the rule. -/
def Alike (rule : Rule) (first second : Whitelist) : Prop :=
  ∀ name ∈ rule.classes, name ∈ first ↔ name ∈ second

theorem is_kept_by_alike (alike : rule.Alike first second) :
    rule.isKeptBy first = rule.isKeptBy second := by
  rw [Bool.eq_iff_iff, is_kept_by_iff, is_kept_by_iff]
  apply or_congr_right
  constructor
  · rintro ⟨name, selected, known⟩
    exact ⟨name, selected, (alike name selected).1 known⟩
  · rintro ⟨name, selected, known⟩
    exact ⟨name, selected, (alike name selected).2 known⟩

end Rule

namespace Report

theorem add_alike {first second : Whitelist} {rule : Rule} (alike : rule.Alike first second)
    (count : Count) : Count.add first count rule = Count.add second count rule := by
  have known : rule.classes.toList.filter first.contains =
      rule.classes.toList.filter second.contains := by
    apply List.filter_congr
    intro name selected
    rw [Bool.eq_iff_iff, OrderedSet.contains_iff, OrderedSet.contains_iff]
    exact alike name selected
  simp only [Count.add, Rule.is_kept_by_alike alike, known]

/-- The report's own pass over the rules learns nothing else from a whitelist. -/
theorem count_alike {first second : Whitelist} {rules : List Rule}
    (alike : ∀ rule ∈ rules, rule.Alike first second) : count rules first = count rules second := by
  apply List.foldl_ext
  intro counted rule member
  exact add_alike (alike rule member) counted

end Report

namespace Stylesheet

theorem kept_rules_alike {sheet : Stylesheet} {first second : Whitelist}
    (alike : ∀ rule ∈ sheet.rules, rule.Alike first second) :
    sheet.keptRules first = sheet.keptRules second := by
  apply List.filter_congr
  intro rule member
  exact Rule.is_kept_by_alike (alike rule member)

theorem purge_same_names {sheet : Stylesheet} {first second : Whitelist}
    (same : ∀ name, name ∈ first ↔ name ∈ second) (keepBanner : Bool) :
    sheet.purge first keepBanner = sheet.purge second keepBanner := by
  have kept : sheet.keptRules first = sheet.keptRules second := by
    apply kept_rules_alike
    intro rule _ name _
    exact same name
  rw [purge, purge, kept]

theorem at_rule_classless {css : Text} {rule : Rule} (member : rule ∈ (parse css).rules)
    (atSign : (rule.text.dropWhile Text.isBlank).head? = some '@') : rule.isClassless = true := by
  rw [Rule.isClassless, Rule.classes,
    Selector.classes_of_at_rule ((parse_readable css).plain rule member) atSign]
  rfl

/-- Kept rules grow with the whitelist, add up over unions, and are the classless
ones, at-rules among them, when nothing is known. Whitelists that know the same
classes of the stylesheet cannot be told apart by a purge or, if they are of one
size, by a report on it. -/
theorem kept_rules_of_relevant_classes (css : Text) :
    (∀ smaller larger : Whitelist, (∀ name ∈ smaller, name ∈ larger) →
        ((parse css).keptRules smaller).Sublist ((parse css).keptRules larger)) ∧
      (∀ (first second : Whitelist) (rule : Rule),
        rule ∈ (parse css).keptRules (first.union second) ↔
          rule ∈ (parse css).keptRules first ∨ rule ∈ (parse css).keptRules second) ∧
      (parse css).keptRules .empty = (parse css).rules.filter Rule.isClassless ∧
      (∀ rule ∈ (parse css).rules, (rule.text.dropWhile Text.isBlank).head? = some '@' →
        rule ∈ (parse css).keptRules .empty) ∧
      ∀ first second : Whitelist, (∀ rule ∈ (parse css).rules, rule.Alike first second) →
        (∀ keepBanner, (parse css).purge first keepBanner = (parse css).purge second keepBanner) ∧
        (first.size = second.size → ∀ firstTime secondTime inputSize output,
          let firstReport := Report.ofPurge firstTime (parse css) first inputSize output
          let secondReport := Report.ofPurge secondTime (parse css) second inputSize output
          firstReport.statistics = secondReport.statistics ∧
            firstReport.retainedClasses = secondReport.retainedClasses ∧
            firstReport.droppedClasses = secondReport.droppedClasses) := by
  have classless : (parse css).keptRules .empty = (parse css).rules.filter Rule.isClassless := by
    apply List.filter_congr
    intro rule _
    exact Rule.is_kept_by_empty
  refine ⟨?_, ?_, classless, ?_, ?_⟩
  · intro smaller larger subset
    apply List.monotone_filter_right
    intro rule kept
    exact Rule.is_kept_by_mono subset kept
  · intro first second rule
    simp only [keptRules, List.mem_filter, Rule.is_kept_by_union, Bool.or_eq_true, and_or_left]
  · intro rule member atSign
    rw [classless, List.mem_filter]
    exact ⟨member, at_rule_classless member atSign⟩
  · intro first second alike
    constructor
    · intro keepBanner
      rw [purge, purge, kept_rules_alike alike]
    · intro size firstTime secondTime inputSize output
      have counted := Report.count_alike alike
      simp only [Report.ofPurge, counted, size, and_self]

theorem kept_rules_of_relevant_classes_nested :
    let css : Text := ['@', 'm', '{', '.', 'b', '{', '}', '}', '.', 'a', '{', '}']
    let first : Whitelist := .ofList [['x'], ['a']]
    let second : Whitelist := .ofList [['a'], ['b']]
    ((parse css).keptRules .empty).Sublist ((parse css).keptRules first) ∧
      (⟨['@', 'm', '{', '.', 'b', '{', '}', '}']⟩ : Rule) ∈ (parse css).keptRules .empty ∧
      (parse css).purge first true = (parse css).purge second true ∧
      (Report.ofPurge .epoch (parse css) first 12 []).statistics =
        (Report.ofPurge .epoch (parse css) second 12 []).statistics := by
  intro css first second
  obtain ⟨monotone, _, _, atRules, alike⟩ := kept_rules_of_relevant_classes css
  have rules : (parse css).rules =
      [⟨['@', 'm', '{', '.', 'b', '{', '}', '}']⟩, ⟨['.', 'a', '{', '}']⟩] := by decide
  have known : ∀ rule ∈ (parse css).rules, rule.Alike first second := by
    rw [rules]
    intro rule member
    rcases List.mem_pair.1 member with rfl | rfl
    · have classless : Rule.classes ⟨['@', 'm', '{', '.', 'b', '{', '}', '}']⟩ = .empty := by
        decide +kernel
      intro name selected
      rw [classless] at selected
      exact absurd selected OrderedSet.not_mem_empty
    · have single : Rule.classes ⟨['.', 'a', '{', '}']⟩ = .ofList [['a']] := by decide +kernel
      intro name selected
      rw [single, OrderedSet.mem_of_list, List.mem_singleton] at selected
      subst selected
      decide
  obtain ⟨texts, reports⟩ := alike first second known
  have size : first.size = second.size := by decide
  refine ⟨?_, ?_, texts true, (reports size .epoch .epoch 12 []).1⟩
  · exact monotone .empty first fun name member => absurd member OrderedSet.not_mem_empty
  · exact atRules _ (by rw [rules]; exact List.mem_cons_self) (by decide)

end Stylesheet

end StylePurge
