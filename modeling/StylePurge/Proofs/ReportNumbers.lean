import Mathlib.Algebra.GroupWithZero.Nat
import StylePurge.Proofs.ReportClasses

/-!
The numbers of a report beside the text that the purge wrote. The report counts rules
in a pass of its own and tells the banner by how the text begins; both agree with what
was written, down to the bytes, and with what reading the text again finds.
-/

namespace StylePurge

namespace Text

theorem byte_size_flat_map {Item : Type} (items : List Item) (convert : Item → Text) :
    byteSize (items.flatMap convert) = (items.map fun item => byteSize (convert item)).sum := by
  induction items with
  | nil => rfl
  | cons item rest induction =>
      rw [List.flatMap_cons, byte_size_append, induction, List.map_cons, List.sum_cons]

end Text

namespace Stylesheet

theorem byte_size_banner_text (banner : Text) :
    Text.byteSize (bannerText banner) = if banner.isEmpty then 0 else Text.byteSize banner + 7 := by
  rw [bannerText]
  by_cases empty : banner.isEmpty = true
  · rw [if_pos empty, if_pos empty, Text.byte_size_nil]
  · rw [if_neg empty, if_neg empty, Text.byte_size_append, Text.byte_size_append]
    have front : Text.byteSize ['/', '*', ' '] = 3 := rfl
    have back : Text.byteSize [' ', '*', '/', ' '] = 4 := rfl
    omega

/-- Every rule costs one byte beyond its text. -/
theorem byte_size_serialize (rules : List Rule) (banner : Text) :
    Text.byteSize (serialize rules banner) =
      (rules.map fun rule => Text.byteSize rule.text + 1).sum +
        if banner.isEmpty then 0 else Text.byteSize banner + 7 := by
  have line (rule : Rule) : Text.byteSize (rule.text ++ ['\n']) = Text.byteSize rule.text + 1 :=
    Text.byte_size_append rule.text ['\n']
  rw [serialize, Text.byte_size_append, byte_size_banner_text, Text.byte_size_flat_map,
    Nat.add_comm]
  simp only [line]

/-- Rules that were read never look like a banner. -/
theorem serialize_not_opener {sheet : Stylesheet} (readable : sheet.Readable) :
    ¬Comment.opener <+: serialize sheet.rules [] := by
  intro begins
  cases rules : sheet.rules with
  | nil =>
      rw [rules] at begins
      exact absurd (List.prefix_nil.1 begins) (List.cons_ne_nil _ _)
  | cons rule rest =>
      have member : rule ∈ sheet.rules := by rw [rules]; exact List.mem_cons_self
      have written : serialize sheet.rules [] = rule.text ++ ['\n'] ++ serialize rest [] := by
        rw [rules]
        rfl
      -- A rule has a character, so the opener would stand within the first line.
      have long : Comment.opener.length ≤ (rule.text ++ ['\n']).length := by
        have some := List.length_pos_iff.2 (Splitter.ne_nil_of_whole (readable.whole rule member))
        rw [List.length_append]
        exact Nat.succ_le_succ some
      rw [written] at begins
      have within : Comment.opener <+: rule.text ++ ['\n'] :=
        List.prefix_of_prefix_length_le begins (List.prefix_append _ _) long
      rcases Text.pair_infix_concat.1 within.isInfix with found | ⟨_, star⟩
      · exact readable.plain rule member found
      · exact absurd star (by decide)

end Stylesheet

namespace Report

open Stylesheet

/-- A text that was purged begins like a banner only if there is one and it is kept. -/
theorem shows_banner_of_purge (css : Text) (whitelist : Whitelist) (keepBanner : Bool) :
    showsBanner (parse css) ((parse css).purge whitelist keepBanner) =
      (keepBanner && !(parse css).banner.isEmpty) := by
  cases keepBanner with
  | false =>
      have plain := serialize_not_opener (restrict_readable (parse_readable css) whitelist false)
      have silent : ((parse css).purge whitelist false).startsWith ['/', '*', ' '] = false := by
        rw [← Bool.not_eq_true, Text.startsWith, List.isPrefixOf_iff_prefix]
        intro begins
        exact plain ((List.prefix_append Comment.opener [' ']).trans begins)
      rw [showsBanner, silent, Bool.and_false, Bool.false_and]
  | true =>
      by_cases empty : (parse css).banner.isEmpty = true
      · simp [showsBanner, empty]
      · simp [showsBanner, purge, serialize, bannerText, empty, Text.startsWith]

theorem kept_banner (banner : Text) (keepBanner : Bool) :
    (if keepBanner && !banner.isEmpty then banner else []) =
      if keepBanner then banner else [] := by
  cases keepBanner with
  | false => rfl
  | true => cases banner <;> rfl

/-- No rule is taken for the banner, and no banner is missed. The flag of the report is set
just when there is a banner and it was to be kept. Otherwise the text that was written does
not begin with a comment, and it has no banner when it is read. -/
theorem banner_kept_iff (css : Text) (whitelist : Whitelist) (keepBanner : Bool)
    (generatedAt : Timestamp) (inputSize : Nat) :
    let sheet := parse css
    let output := sheet.purge whitelist keepBanner
    let statistics := (ofPurge generatedAt sheet whitelist inputSize output).statistics
    (statistics.bannerKept = true ↔ keepBanner = true ∧ sheet.banner ≠ []) ∧
      (statistics.bannerKept = true ↔ Comment.opener <+: output) ∧
      (parse output).banner = if statistics.bannerKept then sheet.banner else [] := by
  intro sheet output statistics
  have flag : statistics.bannerKept = (keepBanner && !sheet.banner.isEmpty) :=
    shows_banner_of_purge css whitelist keepBanner
  have kept : statistics.bannerKept = true ↔ keepBanner = true ∧ sheet.banner ≠ [] := by
    rw [flag, Bool.and_eq_true, Bool.not_eq_true', List.isEmpty_eq_false_iff]
  refine ⟨kept, ⟨fun shown => ?_, fun begins => ?_⟩, ?_⟩
  · have front : output.startsWith ['/', '*', ' '] = true := (Bool.and_eq_true_iff.1 shown).2
    exact (List.prefix_append Comment.opener [' ']).trans (List.isPrefixOf_iff_prefix.1 front)
  · by_contra hidden
    have silent : (sheet.restrict whitelist keepBanner).banner = [] := by
      rw [kept, not_and, not_not] at hidden
      cases keepBanner with
      | false => rfl
      | true => exact hidden rfl
    have readable := restrict_readable (parse_readable css) whitelist keepBanner
    apply serialize_not_opener readable
    rwa [← silent]
  · have reread : (parse output).banner = (sheet.restrict whitelist keepBanner).banner :=
      congrArg Stylesheet.banner (parse_purge css whitelist keepBanner)
    rw [reread, flag, kept_banner]
    rfl

/-- Kept and dropped rules make up all rules, and the kept ones are those that the
written text holds. The size of the text is that of the kept rules, a line feed after
each, and of the banner with its comment marks just when the report says it was kept. -/
theorem numbers_of_purge (css : Text) (whitelist : Whitelist) (keepBanner : Bool)
    (generatedAt : Timestamp) :
    let sheet := parse css
    let output := sheet.purge whitelist keepBanner
    let statistics :=
      (ofPurge generatedAt sheet whitelist (Text.byteSize css) output).statistics
    statistics.rulesTotal = statistics.rulesRetained + statistics.rulesDropped ∧
      statistics.classlessRules ≤ statistics.rulesRetained ∧
      statistics.rulesRetained = (sheet.keptRules whitelist).length ∧
      statistics.rulesRetained = (parse output).rules.length ∧
      statistics.outputSize =
        ((sheet.keptRules whitelist).map fun rule => Text.byteSize rule.text + 1).sum +
          if statistics.bannerKept then Text.byteSize sheet.banner + 7 else 0 := by
  intro sheet output statistics
  have counted := counted_count sheet.rules whitelist
  have retained : statistics.rulesRetained = sheet.rules.countP (Rule.isKeptBy whitelist) :=
    counted.retained
  have dropped : statistics.rulesDropped =
      sheet.rules.countP fun rule => !rule.isKeptBy whitelist := counted.dropped
  have classless : statistics.classlessRules = sheet.rules.countP Rule.isClassless :=
    counted.classless
  have kept : statistics.rulesRetained = (sheet.keptRules whitelist).length := by
    rw [retained, List.countP_eq_length_filter, keptRules]
  refine ⟨?_, ?_, kept, ?_, ?_⟩
  · have all : statistics.rulesTotal = sheet.rules.length := rfl
    rw [all, retained, dropped, List.length_eq_countP_add_countP (Rule.isKeptBy whitelist)]
    simp only [Bool.not_eq_true, Bool.decide_eq_false]
  · rw [classless, retained]
    apply List.countP_mono_left
    intro rule _ plain
    exact Rule.is_kept_by_iff.2 (.inl plain)
  · rw [kept, parse_purge]
    rfl
  · have flag : statistics.bannerKept = (keepBanner && !sheet.banner.isEmpty) :=
      shows_banner_of_purge css whitelist keepBanner
    have size : statistics.outputSize = Text.byteSize
        (serialize (sheet.keptRules whitelist) (if keepBanner then sheet.banner else [])) := rfl
    rw [size, flag, byte_size_serialize]
    cases keepBanner with
    | false => rfl
    | true =>
        cases sheet.banner with
        | nil => rfl
        | cons first rest => rfl

end Report

end StylePurge
