import StylePurge.Proofs.FirstComment
import StylePurge.Proofs.StylesheetLayout

/-!
Writing a stylesheet and reading it again. What reading can produce is a
stylesheet whose rules stand on their own and whose banner cannot close its own
comment; such a stylesheet survives being written. Purging keeps within these
stylesheets, so a second purge sees exactly what the first one kept.
-/

namespace StylePurge.Stylesheet

structure Readable (sheet : Stylesheet) : Prop where
  plain : ∀ rule ∈ sheet.rules, ¬Comment.opener <:+: rule.text
  whole : ∀ rule ∈ sheet.rules, Splitter.Whole rule.text
  uncut : ¬Comment.closer <:+: sheet.banner
  trimmed : Text.trim sheet.banner = sheet.banner

theorem parse_readable (css : Text) : (parse css).Readable where
  plain := fun _ member found =>
    Comment.clean_opener_free css (found.trans (Splitter.rule_slice member))
  whole := fun _ member => Splitter.whole_of_mem member
  uncut := (Comment.filter_banner css).1
  trimmed := (Comment.filter_banner css).2

theorem exists_rule_parts (rules : List Rule)
    (plain : ∀ rule ∈ rules, ¬Comment.opener <:+: rule.text)
    (whole : ∀ rule ∈ rules, Splitter.Whole rule.text) :
    ∃ parts : List Part,
      parts.flatMap Part.text = (rules.flatMap fun rule => rule.text ++ ['\n']) ∧
        parts.filterMap Part.rule? = rules ∧ parts.findSome? Part.comment? = none := by
  induction rules with
  | nil => exact ⟨[], rfl, rfl, rfl⟩
  | cons rule rest induction =>
      obtain ⟨parts, text, found, noComment⟩ :=
        induction (fun other member => plain other (List.mem_cons_of_mem rule member))
          (fun other member => whole other (List.mem_cons_of_mem rule member))
      have here : rule ∈ rule :: rest := List.mem_cons_self
      let line := [Part.rule rule.text (plain rule here) (whole rule here),
        .layout ['\n'] (List.forall_mem_singleton.2 rfl)]
      refine ⟨line ++ parts, ?_, ?_, noComment⟩
      · rw [List.flatMap_append, text]
        rfl
      · rw [List.filterMap_append, found]
        rfl

theorem exists_banner_parts (banner : Text) (uncut : ¬Comment.closer <:+: banner)
    (trimmed : Text.trim banner = banner) :
    ∃ parts : List Part,
      parts.flatMap Part.text = bannerText banner ∧ parts.filterMap Part.rule? = [] ∧
        ∀ rest : List Part, rest.findSome? Part.comment? = none →
          Text.trim (((parts ++ rest).findSome? Part.comment?).getD []) = banner := by
  by_cases empty : banner = []
  · subst empty
    refine ⟨[], rfl, rfl, fun rest noComment => ?_⟩
    rw [List.nil_append, noComment]
    rfl
  · have uncutPadded : ¬Comment.closer <:+: ' ' :: banner ++ [' '] := by
      rw [Comment.closer, Text.pair_infix_concat, Text.pair_infix_cons]
      rintro ((⟨star, _⟩ | found) | ⟨_, slash⟩)
      · exact absurd star (by decide)
      · exact uncut found
      · exact absurd slash (by decide)
    let front := [Part.comment (' ' :: banner ++ [' ']) uncutPadded,
      .layout [' '] (List.forall_mem_singleton.2 rfl)]
    refine ⟨front, ?_, rfl, fun rest _ => ?_⟩
    · have written : bannerText banner = ['/', '*', ' '] ++ banner ++ [' ', '*', '/', ' '] :=
        if_neg (by rwa [List.isEmpty_iff])
      rw [written]
      simp [front, Part.text, Comment.opener, Comment.closer]
    · change Text.trim (' ' :: banner ++ [' ']) = banner
      rw [Text.trim, Text.trim_by_pad banner rfl rfl]
      exact trimmed

/-- Reading undoes writing. -/
theorem parse_serialize (sheet : Stylesheet) (readable : sheet.Readable) :
    parse (serialize sheet.rules sheet.banner) = sheet := by
  obtain ⟨front, bannerWritten, noRules, banner⟩ :=
    exists_banner_parts sheet.banner readable.uncut readable.trimmed
  obtain ⟨parts, rulesWritten, rules, noComment⟩ :=
    exists_rule_parts sheet.rules readable.plain readable.whole
  have written : serialize sheet.rules sheet.banner = (front ++ parts).flatMap Part.text := by
    rw [List.flatMap_append, bannerWritten, rulesWritten]
    rfl
  rw [written, parse, filter_parts, rules_parts, List.filterMap_append, noRules, rules,
    List.nil_append, banner parts noComment]

/-- What a purge writes. -/
def restrict (sheet : Stylesheet) (whitelist : Whitelist) (keepBanner : Bool) : Stylesheet :=
  ⟨sheet.keptRules whitelist, if keepBanner then sheet.banner else []⟩

theorem purge_eq_serialize (sheet : Stylesheet) (whitelist : Whitelist) (keepBanner : Bool) :
    sheet.purge whitelist keepBanner =
      serialize (sheet.restrict whitelist keepBanner).rules
        (sheet.restrict whitelist keepBanner).banner := rfl

theorem restrict_readable {sheet : Stylesheet} (readable : sheet.Readable) (whitelist : Whitelist)
    (keepBanner : Bool) : (sheet.restrict whitelist keepBanner).Readable where
  plain := fun rule member => readable.plain rule (List.mem_of_mem_filter member)
  whole := fun rule member => readable.whole rule (List.mem_of_mem_filter member)
  uncut := by
    cases keepBanner with
    | false => exact Text.pair_not_infix_nil
    | true => exact readable.uncut
  trimmed := by
    cases keepBanner with
    | false => rfl
    | true => exact readable.trimmed

theorem parse_purge (css : Text) (whitelist : Whitelist) (keepBanner : Bool) :
    parse ((parse css).purge whitelist keepBanner) = (parse css).restrict whitelist keepBanner := by
  rw [purge_eq_serialize]
  exact parse_serialize _ (restrict_readable (parse_readable css) whitelist keepBanner)

/-- Purging what a purge wrote keeps the rules that both whitelists keep, and
the banner if it was kept both times; the same purge again changes nothing. -/
theorem purge_parse_purge (css : Text) (first second : Whitelist) (keepFirst keepSecond : Bool) :
    (parse ((parse css).purge first keepFirst)).purge second keepSecond =
        serialize
          ((parse css).rules.filter fun rule => rule.isKeptBy first && rule.isKeptBy second)
          (if keepFirst && keepSecond then (parse css).banner else []) ∧
      (parse ((parse css).purge first keepFirst)).purge first keepFirst =
        (parse css).purge first keepFirst := by
  rw [parse_purge]
  constructor
  · have rules : ((parse css).restrict first keepFirst).keptRules second =
        (parse css).rules.filter fun rule => rule.isKeptBy first && rule.isKeptBy second := by
      rw [keptRules, restrict, keptRules, List.filter_filter]
      exact List.filter_congr fun rule _ => Bool.and_comm _ _
    rw [purge, rules]
    cases keepFirst <;> cases keepSecond <;> rfl
  · have rules : ((parse css).restrict first keepFirst).keptRules first =
        (parse css).keptRules first := by
      rw [keptRules, restrict, keptRules, List.filter_filter]
      exact List.filter_congr fun rule _ => Bool.and_self _
    rw [purge, rules]
    cases keepFirst <;> rfl

end StylePurge.Stylesheet
