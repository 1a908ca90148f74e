import Mathlib.Algebra.Order.BigOperators.Group.List
import Mathlib.Algebra.Order.Group.Nat
import StylePurge.Proofs.CommentDeletion
import StylePurge.Proofs.ReductionRatio
import StylePurge.Proofs.ReportNumbers
import StylePurge.Proofs.RulePieces

/-!
The size of a purged text against that of its source. Kept rules and a kept banner stand
in the source as slices that do not overlap, so they are no larger than it. What is
written beside them, a line feed after each rule and the blanks of the banner's comment,
need not have a counterpart in the source.
-/

namespace StylePurge

namespace Text

theorem byte_size_sublist {shorter longer : Text} (sublist : shorter.Sublist longer) :
    byteSize shorter ≤ byteSize longer := by
  induction sublist with
  | slnil => exact Nat.le_refl 0
  | cons character _ induction => exact Nat.le_trans induction (Nat.le_add_left _ _)
  | cons_cons character _ induction => exact Nat.add_le_add_left induction _

end Text

namespace Comment

/-- The banner with the marks of a comment around it, or nothing. -/
def enclosed (banner : Text) : Text :=
  if banner.isEmpty then [] else opener ++ banner ++ closer

theorem enclosed_sublist {banner inside : Text} (sublist : banner.Sublist inside) :
    (enclosed banner).Sublist (opener ++ inside ++ closer) := by
  rw [enclosed]
  split
  · exact List.nil_sublist _
  · exact ((List.Sublist.refl opener).append sublist).append (List.Sublist.refl closer)

/-- The first comment is not part of what is left, so both fit into the text. -/
theorem byte_size_filter (text : Text) :
    Text.byteSize (filter text).clean + Text.byteSize (enclosed (filter text).banner) ≤
      Text.byteSize text := by
  rcases banner_cases text with empty | ⟨before, inside, after, rfl, plain, uncut⟩
  · rw [empty]
    exact Text.byte_size_sublist (clean_sublist text)
  · have rest : Text.byteSize (filter (before ++ after)).clean ≤
        Text.byteSize before + Text.byteSize after := by
      rw [← Text.byte_size_append]
      exact Text.byte_size_sublist (clean_sublist (before ++ after))
    have comment := Text.byte_size_sublist
      (enclosed_sublist (Text.trim_by_slice Text.isBlank inside).sublist)
    rw [clean_of_comment after plain uncut, banner_of_first_comment before inside after plain uncut,
      Text.byte_size_append, Text.byte_size_append, Text.trim]
    omega

end Comment

namespace Splitter

theorem byte_size_pieces (pieces : List Piece) :
    ((pieces.map Piece.rule).map fun rule => Text.byteSize rule.text).sum ≤
      Text.byteSize (pieces.flatMap Piece.text) := by
  rw [Text.byte_size_flat_map, List.map_map]
  apply List.sum_le_sum
  intro piece _
  rw [Piece.text, Text.byte_size_append]
  exact Nat.le_add_left _ _

theorem byte_size_rules (css : Text) :
    ((rules css).map fun rule => Text.byteSize rule.text).sum ≤ Text.byteSize css := by
  obtain ⟨pieces, gap, cut⟩ := exists_cut css
  have found : pieces.map Piece.rule = rules css := cut.rules
  rw [← found, cut.text, Text.byte_size_append]
  exact Nat.le_add_right_of_le (byte_size_pieces pieces)

end Splitter

namespace Stylesheet

/-- Bytes of the rules and of the banner's comment as they stand in a source. -/
def carriedSize (rules : List Rule) (banner : Text) : Nat :=
  (rules.map fun rule => Text.byteSize rule.text).sum + Text.byteSize (Comment.enclosed banner)

theorem carried_parse (css : Text) :
    carriedSize (parse css).rules (parse css).banner ≤ Text.byteSize css := by
  have cleaned := Comment.byte_size_filter css
  have split := Splitter.byte_size_rules (Comment.filter css).clean
  exact Nat.le_trans (Nat.add_le_add_right split _) cleaned

theorem carried_restrict (sheet : Stylesheet) (whitelist : Whitelist) (keepBanner : Bool) :
    carriedSize (sheet.keptRules whitelist) (if keepBanner then sheet.banner else []) ≤
      carriedSize sheet.rules sheet.banner := by
  have fewer : (sheet.keptRules whitelist).Sublist sheet.rules := List.filter_sublist
  apply Nat.add_le_add
  · exact (fewer.map _).sum_le_sum fun _ _ => Nat.zero_le _
  · cases keepBanner with
    | false => exact Nat.zero_le _
    | true => exact Nat.le_refl _

/-- A byte for each rule and three for a banner are written that the source need not have. -/
theorem byte_size_serialize_carried (rules : List Rule) (banner : Text) :
    Text.byteSize (serialize rules banner) =
      carriedSize rules banner + (rules.length + if banner.isEmpty then 0 else 3) := by
  have comment : Text.byteSize (Comment.enclosed banner) =
      if banner.isEmpty then 0 else Text.byteSize banner + 4 := by
    rw [Comment.enclosed]
    split
    · rfl
    · rw [Text.byte_size_append, Text.byte_size_append]
      have front : Text.byteSize Comment.opener = 2 := rfl
      have back : Text.byteSize Comment.closer = 2 := rfl
      omega
  have lines : (rules.map fun rule => Text.byteSize rule.text + 1).sum =
      (rules.map fun rule => Text.byteSize rule.text).sum + rules.length := by
    rw [List.sum_map_add, List.map_const', List.sum_replicate, Nat.nsmul_eq_mul, Nat.mul_one]
  rw [byte_size_serialize, carriedSize, comment, lines]
  split
  · omega
  · omega

theorem blanks_of_kept (banner : Text) (keepBanner : Bool) :
    (if (if keepBanner then banner else []).isEmpty then 0 else 3) =
      if keepBanner && !banner.isEmpty then 3 else 0 := by
  cases keepBanner with
  | false => rfl
  | true => cases banner <;> rfl

/-- A text that was purged has room for all that is written beside its rules and banner. -/
theorem purge_again_no_larger (css : Text) (first second : Whitelist)
    (keepFirst keepSecond : Bool) :
    let output := (parse css).purge first keepFirst
    Text.byteSize ((parse output).purge second keepSecond) ≤ Text.byteSize output := by
  intro output
  have reread : parse output = (parse css).restrict first keepFirst :=
    parse_purge css first keepFirst
  have fewer : ((parse output).keptRules second).length ≤ (parse output).rules.length :=
    List.length_filter_le _ _
  have carried := carried_restrict (parse output) second keepSecond
  have blanks : (if (if keepSecond then (parse output).banner else []).isEmpty then 0 else 3) ≤
      if (parse output).banner.isEmpty then 0 else 3 := by
    cases keepSecond with
    | false => exact Nat.zero_le _
    | true => exact Nat.le_refl _
  have size : Text.byteSize output = carriedSize (parse output).rules (parse output).banner +
      ((parse output).rules.length + if (parse output).banner.isEmpty then 0 else 3) := by
    rw [reread]
    exact byte_size_serialize_carried _ _
  rw [size, purge, byte_size_serialize_carried]
  exact Nat.add_le_add carried (Nat.add_le_add fewer blanks)

end Stylesheet

namespace Report

open Stylesheet

/-- The output holds nothing of the source twice, so it is larger by at most what is written
beside rules and banner, and it is larger just when the source has less than that to lose. -/
theorem size_of_purge (css : Text) (whitelist : Whitelist) (keepBanner : Bool)
    (generatedAt : Timestamp) :
    let sheet := parse css
    let output := sheet.purge whitelist keepBanner
    let statistics :=
      (ofPurge generatedAt sheet whitelist (Text.byteSize css) output).statistics
    let carried :=
      carriedSize (sheet.keptRules whitelist) (if statistics.bannerKept then sheet.banner else [])
    let added := statistics.rulesRetained + if statistics.bannerKept then 3 else 0
    carried ≤ statistics.inputSize ∧
      statistics.outputSize = carried + added ∧
      statistics.outputSize ≤ statistics.inputSize + added ∧
      (statistics.outputSize ≤ statistics.inputSize ↔ added ≤ statistics.inputSize - carried) ∧
      (statistics.inputSize < 2 ^ 64 → statistics.outputSize ≤ statistics.inputSize →
        0.0 ≤ statistics.reductionRatio ∧ statistics.reductionRatio ≤ 1.0) := by
  intro sheet output statistics carried added
  have retained : statistics.rulesRetained = (sheet.keptRules whitelist).length := by
    rw [keptRules, ← List.countP_eq_length_filter]
    exact (counted_count sheet.rules whitelist).retained
  have flag : statistics.bannerKept = (keepBanner && !sheet.banner.isEmpty) :=
    shows_banner_of_purge css whitelist keepBanner
  have bounded : carried ≤ statistics.inputSize :=
    Nat.le_trans (carried_restrict sheet whitelist statistics.bannerKept) (carried_parse css)
  have size : statistics.outputSize = carried + added := by
    have written : statistics.outputSize = Text.byteSize
        (serialize (sheet.keptRules whitelist) (if keepBanner then sheet.banner else [])) := rfl
    rw [written, byte_size_serialize_carried, blanks_of_kept, ← kept_banner, ← flag, ← retained]
  exact ⟨bounded, size, by omega, by omega, Statistics.ratio_within_unit statistics⟩

theorem size_of_purge_unused_rule :
    let css := Text.ofString ".a\x7b\x7d.b\x7b\x7d"
    let statistics := (ofPurge .epoch (parse css) (.ofList [['a']]) (Text.byteSize css)
      ((parse css).purge (.ofList [['a']]) true)).statistics
    statistics.inputSize = 8 ∧ statistics.outputSize = 5 ∧ statistics.inputSize < 2 ^ 64 ∧
      0.0 ≤ statistics.reductionRatio ∧ statistics.reductionRatio ≤ 1.0 := by
  intro css statistics
  have sizes : statistics.inputSize = 8 ∧ statistics.outputSize = 5 := by decide +kernel
  have fits : statistics.inputSize < 2 ^ 64 := by
    rw [sizes.1]
    decide
  have smaller : statistics.outputSize ≤ statistics.inputSize := by
    rw [sizes.1, sizes.2]
    decide
  obtain ⟨_, _, _, _, ratio⟩ := size_of_purge css (.ofList [['a']]) true .epoch
  exact ⟨sizes.1, sizes.2, fits, ratio fits smaller⟩

/-- The one line feed of the source gives way to a blank, and another follows the rule. -/
theorem purged_larger :
    let css := Text.ofString "/* MIT License */\n.a\x7bcolor:red\x7d"
    let statistics := (ofPurge .epoch (parse css) (.ofList [['a']]) (Text.byteSize css)
      ((parse css).purge (.ofList [['a']]) true)).statistics
    statistics.inputSize = 31 ∧ statistics.outputSize = 32 ∧
      ¬0.0 ≤ statistics.reductionRatio := by
  decide +kernel

end Report

end StylePurge
