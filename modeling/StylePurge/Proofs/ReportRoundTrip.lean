import StylePurge.Proofs.JsonRecords
import StylePurge.Proofs.ReportClasses

/-!
Reports written and read again. Every number of a report counts rules, names, bytes or
milliseconds, and a report is read back whole as long as these fit in words: fields that are
not set come back as not set, and classes keep their order and their counts.
-/

namespace StylePurge

section Metadata

variable (metadata : Metadata)

def Metadata.fields : List (String × Option Json) :=
  [("version", some (.ofText metadata.version)),
    ("generated_at", some (.ofText metadata.generatedAt.text)),
    ("input", metadata.input.map .ofText), ("output", metadata.output.map .ofText),
    ("purger_version", metadata.purgerVersion.map .ofText)]

theorem Metadata.to_json_present : metadata.toJson = .object (Json.present metadata.fields) := by
  simp [toJson, fields, Json.present, Json.optional_member_map, Json.optional_member_some]

theorem Metadata.to_json_well_formed : metadata.toJson.WellFormed := by
  have texts := Json.map_well_formed Json.of_text_well_formed
  rw [to_json_present]
  apply Json.present_well_formed
  simp only [fields, List.forall_mem_cons]
  exact ⟨texts (some _), texts (some _), texts _, texts _, texts _, nofun⟩

theorem Metadata.of_json_to_json : ofJson? metadata.toJson = some metadata := by
  have time : Timestamp.ofText? metadata.generatedAt.text = some metadata.generatedAt := by
    rw [Timestamp.ofText?, dif_pos metadata.generatedAt.valid]
  have optional (text : Option Text) :
      Json.optional Json.text? (text.map .ofText) = some text :=
    Json.optional_map text nofun fun _ _ => rfl
  rw [to_json_present, ofJson?, Json.fields_of_present metadata.fields
    ["version", "generated_at", "input", "output", "purger_version"] (by decide) rfl]
  simp [fields, Json.required, Json.text?, Timestamp.ofJson?, time, optional, Json.ofText]

end Metadata

section Statistics

/-- Every number fits in a word. -/
structure Statistics.Bounded (statistics : Statistics) : Prop where
  total : statistics.rulesTotal < Text.wordLimit
  retained : statistics.rulesRetained < Text.wordLimit
  dropped : statistics.rulesDropped < Text.wordLimit
  classless : statistics.classlessRules < Text.wordLimit
  whitelist : statistics.whitelistSize < Text.wordLimit
  input : statistics.inputSize < Text.wordLimit
  output : statistics.outputSize < Text.wordLimit
  millis : ∀ millis ∈ statistics.processingMillis, millis < Text.wordLimit

variable (statistics : Statistics)

def Statistics.fields : List (String × Option Json) :=
  [("rules_total", some (.ofNat statistics.rulesTotal)),
    ("rules_retained", some (.ofNat statistics.rulesRetained)),
    ("rules_dropped", some (.ofNat statistics.rulesDropped)),
    ("classless_rules", some (.ofNat statistics.classlessRules)),
    ("whitelist_size", some (.ofNat statistics.whitelistSize)),
    ("input_size_bytes", some (.ofNat statistics.inputSize)),
    ("output_size_bytes", some (.ofNat statistics.outputSize)),
    ("banner_kept", some (.bool statistics.bannerKept)),
    ("processing_time_ms", statistics.processingMillis.map .ofNat)]

theorem Statistics.to_json_present :
    statistics.toJson = .object (Json.present statistics.fields) := by
  simp [toJson, fields, Json.present, Json.optional_member_map, Json.optional_member_some]

theorem Statistics.to_json_well_formed : statistics.toJson.WellFormed := by
  have numbers := Json.map_well_formed Json.of_nat_well_formed
  have flag : (Json.bool statistics.bannerKept).WellFormed := trivial
  rw [to_json_present]
  apply Json.present_well_formed
  simp only [fields, List.forall_mem_cons]
  exact ⟨numbers (some _), numbers (some _), numbers (some _), numbers (some _), numbers (some _),
    numbers (some _), numbers (some _), Json.some_well_formed flag, numbers _, nofun⟩

variable {statistics}

theorem Statistics.of_json_to_json (bounded : statistics.Bounded) :
    ofJson? statistics.toJson = some statistics := by
  have millis : Json.optional Json.word? (statistics.processingMillis.map .ofNat) =
      some statistics.processingMillis :=
    Json.optional_map _ nofun fun _ found => Json.word_of_nat (bounded.millis _ found)
  rw [to_json_present, ofJson?, Json.fields_of_present statistics.fields
    ["rules_total", "rules_retained", "rules_dropped", "classless_rules", "whitelist_size",
      "input_size_bytes", "output_size_bytes", "banner_kept", "processing_time_ms"]
    (by decide) rfl]
  simp [fields, Json.required, Json.word_of_nat, bounded.total, bounded.retained, bounded.dropped,
    bounded.classless, bounded.whitelist, bounded.input, bounded.output, millis, Json.bool?,
    Json.bool]

end Statistics

section Tally

theorem Tally.eq_of_entries {left right : Tally} (same : left.entries = right.entries) :
    left = right := by
  cases left
  cases right
  cases same
  rfl

/-- Pairs with different names are the entries of a tally as they stand. -/
theorem Tally.of_pairs_entries {pairs : List (Text × Nat)} (distinct : (pairs.map Prod.fst).Nodup) :
    (ofPairs pairs).entries = pairs := by
  induction pairs using List.reverseRecOn with
  | nil => rfl
  | append_singleton front last induction =>
      rw [List.map_append, List.nodup_append] at distinct
      obtain ⟨earlier, _, apart⟩ := distinct
      have kept := induction earlier
      have new : last.1 ∉ (ofPairs front).names := by
        rw [names, kept]
        exact fun known => apart last.1 known last.1 (by simp) rfl
      have step : ofPairs (front ++ [last]) = (ofPairs front).set last.1 last.2 :=
        List.foldl_append
      rw [step, set, update, dif_neg new]
      dsimp only
      rw [kept]

variable {tally : Tally}

theorem Tally.to_json_well_formed (tally : Tally) : tally.toJson.WellFormed := by
  rw [toJson, Json.WellFormed, Json.members_well_formed_iff]
  intro member found
  obtain ⟨entry, _, rfl⟩ := List.mem_map.1 found
  exact Json.of_nat_well_formed entry.2

theorem Tally.of_json_to_json (bounded : ∀ entry ∈ tally.entries, entry.2 < Text.wordLimit) :
    ofJson? tally.toJson = some tally := by
  have members : tally.toJson.members? =
      some (tally.entries.map fun entry => (entry.1, Json.ofNat entry.2)) := by
    rw [toJson, Json.members?, List.mapM_map]
    exact List.mapM_pure
  rw [ofJson?, members, Option.bind_eq_bind, Option.bind_some]
  refine Option.bind_eq_some_iff.2 ⟨tally.entries, ?_, ?_⟩
  · rw [List.mapM_map]
    refine (Json.map_m_found fun entry member => ?_).trans (congrArg some (List.map_id _))
    have word := Json.word_of_nat (bounded entry member)
    exact congrArg (Option.map fun count => (entry.1, count)) word
  · exact congrArg some (eq_of_entries (of_pairs_entries tally.distinct))

end Tally

namespace Report

section Text

/-- Every number of the report fits in a word. -/
structure Bounded (report : Report) : Prop where
  statistics : report.statistics.Bounded
  retained : ∀ entry ∈ report.retainedClasses.entries, entry.2 < Text.wordLimit
  dropped : ∀ entry ∈ report.droppedClasses.entries, entry.2 < Text.wordLimit

variable (report : Report)

def fields : List (String × Option Json) :=
  [("metadata", some report.metadata.toJson), ("statistics", some report.statistics.toJson),
    ("retained_classes", some report.retainedClasses.toJson),
    ("dropped_classes", some report.droppedClasses.toJson)]

theorem to_json_well_formed : report.toJson.WellFormed := by
  have present : report.toJson = .object (Json.present report.fields) := rfl
  rw [present]
  apply Json.present_well_formed
  simp only [fields, List.forall_mem_cons]
  exact ⟨Json.some_well_formed report.metadata.to_json_well_formed,
    Json.some_well_formed report.statistics.to_json_well_formed,
    Json.some_well_formed report.retainedClasses.to_json_well_formed,
    Json.some_well_formed report.droppedClasses.to_json_well_formed, nofun⟩

variable {report}

theorem of_json_to_json (bounded : report.Bounded) : ofJson? report.toJson = some report := by
  have present : report.toJson = .object (Json.present report.fields) := rfl
  rw [present, ofJson?, Json.fields_of_present report.fields
    ["metadata", "statistics", "retained_classes", "dropped_classes"] (by decide) rfl]
  simp [fields, Json.required, Metadata.of_json_to_json,
    Statistics.of_json_to_json bounded.statistics, Tally.of_json_to_json bounded.retained,
    Tally.of_json_to_json bounded.dropped]

theorem read_bounded (bounded : report.Bounded) : read? report.toPrettyText = some report := by
  have read := Json.read_pretty report.to_json_well_formed [] nofun
  rw [List.append_nil] at read
  rw [read?, toPrettyText, read]
  exact of_json_to_json bounded

end Text

section Making

/-- Reports that come about: one of a purge, with paths and times noted on it any number of
times. What is counted and what is noted is held in words. -/
inductive Made : Report → Prop where
  | ofPurge (generatedAt : Timestamp) (sheet : Stylesheet) (whitelist : Whitelist)
      (inputSize : Nat) (output : Text) (rules : sheet.rules.length < Text.wordLimit)
      (names : whitelist.size < Text.wordLimit) (input : inputSize < Text.wordLimit)
      (size : Text.byteSize output < Text.wordLimit) :
      Made (ofPurge generatedAt sheet whitelist inputSize output)
  | withPaths {report : Report} (made : Made report) (input output : Text) :
      Made (report.withPaths input output)
  | withProcessingTime {report : Report} (made : Made report) (millis : Nat)
      (word : millis < Text.wordLimit) : Made (report.withProcessingTime millis)

variable {report : Report}

/-- Counts are taken over the rules, so they are no larger than the number of rules. -/
theorem bounded_of_purge (generatedAt : Timestamp) (sheet : Stylesheet) (whitelist : Whitelist)
    {inputSize : Nat} {output : Text} (rules : sheet.rules.length < Text.wordLimit)
    (names : whitelist.size < Text.wordLimit) (input : inputSize < Text.wordLimit)
    (size : Text.byteSize output < Text.wordLimit) :
    (ofPurge generatedAt sheet whitelist inputSize output).Bounded := by
  have counted := counted_count sheet.rules whitelist
  have word (chosen : Rule → Bool) : sheet.rules.countP chosen < Text.wordLimit :=
    Nat.lt_of_le_of_lt List.countP_le_length rules
  have class_map {wanted : Text → Prop} {tally : Tally}
      (classes : ClassMap sheet.rules wanted tally) :
      ∀ entry ∈ tally.entries, entry.2 < Text.wordLimit := by
    intro entry member
    rw [classes.counts entry member]
    exact word _
  refine ⟨?_, class_map (retained_class_map sheet.rules whitelist),
    class_map (dropped_class_map sheet.rules whitelist)⟩
  exact
    { total := rules
      retained := counted.retained.trans_lt (word _)
      dropped := counted.dropped.trans_lt (word _)
      classless := counted.classless.trans_lt (word _)
      whitelist := names
      input := input
      output := size
      millis := nofun }

theorem bounded_of_made (made : Made report) : report.Bounded := by
  induction made with
  | ofPurge generatedAt sheet whitelist inputSize output rules names input size =>
      exact bounded_of_purge generatedAt sheet whitelist rules names input size
  | withPaths made input output induction =>
      exact ⟨induction.statistics, induction.retained, induction.dropped⟩
  | withProcessingTime made millis word induction =>
      refine ⟨{ induction.statistics with millis := ?_ }, induction.retained, induction.dropped⟩
      intro noted same
      obtain rfl := Option.some.inj same
      exact word

/-- A report is read back as it was written, with the same fields set, and both class maps
entry by entry. -/
theorem read_to_pretty_text (report : Report) (made : Made report) :
    read? report.toPrettyText = some report :=
  read_bounded (bounded_of_made made)

theorem read_to_pretty_text_two_classes :
    let sheet := Stylesheet.parse ['.', 'b', '{', '}', '.', 'a', '.', 'b', '{', '}']
    let whitelist : Whitelist := .ofList [['b']]
    let report := (((ofPurge .epoch sheet whitelist 10 []).withProcessingTime 7).withPaths
      ['"', '\n'] ['😀']).withProcessingTime 3
    read? report.toPrettyText = some report ∧ report.retainedClasses.entries = [(['b'], 2)] ∧
      report.statistics.processingMillis = some 3 := by
  intro sheet whitelist report
  have purged : Made (ofPurge .epoch sheet whitelist 10 []) :=
    .ofPurge .epoch sheet whitelist 10 [] (by decide +kernel) (by decide +kernel) (by decide)
      (by decide +kernel)
  have made : Made report :=
    ((purged.withProcessingTime 7 (by decide)).withPaths _ _).withProcessingTime 3 (by decide)
  exact ⟨read_to_pretty_text report made, by decide +kernel, rfl⟩

end Making

end Report

end StylePurge
