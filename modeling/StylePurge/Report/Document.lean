import StylePurge.Json.Decoder
import StylePurge.Json.Printer
import StylePurge.Json.Reader
import StylePurge.Report

/-!
The written form of a report. Fields that are not set are left out, and class
counts are objects whose members keep their order.
-/

namespace StylePurge

namespace Report

def member (name : String) (value : Json) : Json.Literal × Json := (some name.toList, value)

def optionalMember {Value : Type} (name : String) (encode : Value → Json) :
    Option Value → List (Json.Literal × Json)
  | some value => [member name (encode value)]
  | none => []

end Report

open Report (member optionalMember)

def Metadata.toJson (metadata : Metadata) : Json :=
  .object <|
    [member "version" (.ofText metadata.version),
      member "generated_at" (.ofText metadata.generatedAt.text)] ++
    optionalMember "input" .ofText metadata.input ++
    optionalMember "output" .ofText metadata.output ++
    optionalMember "purger_version" .ofText metadata.purgerVersion

def Statistics.toJson (statistics : Statistics) : Json :=
  .object <|
    [member "rules_total" (.ofNat statistics.rulesTotal),
      member "rules_retained" (.ofNat statistics.rulesRetained),
      member "rules_dropped" (.ofNat statistics.rulesDropped),
      member "classless_rules" (.ofNat statistics.classlessRules),
      member "whitelist_size" (.ofNat statistics.whitelistSize),
      member "input_size_bytes" (.ofNat statistics.inputSize),
      member "output_size_bytes" (.ofNat statistics.outputSize),
      member "banner_kept" (.bool statistics.bannerKept)] ++
    optionalMember "processing_time_ms" .ofNat statistics.processingMillis

def Tally.toJson (tally : Tally) : Json :=
  .object (tally.entries.map fun entry => (some entry.1, .ofNat entry.2))

def Report.toJson (report : Report) : Json :=
  .object
    [member "metadata" report.metadata.toJson,
      member "statistics" report.statistics.toJson,
      member "retained_classes" report.retainedClasses.toJson,
      member "dropped_classes" report.droppedClasses.toJson]

def Report.toPrettyText (report : Report) : Text := report.toJson.pretty

def Timestamp.ofJson? (document : Json) : Option Timestamp := document.text?.bind ofText?

def Metadata.ofJson? (document : Json) : Option Metadata := do
  let fields ← Json.fields? ["version", "generated_at", "input", "output", "purger_version"]
    .complete document
  match fields with
  | [version, generatedAt, input, output, purgerVersion] =>
      some
        { version := ← Json.required Json.text? version
          generatedAt := ← Json.required Timestamp.ofJson? generatedAt
          input := ← Json.optional Json.text? input
          output := ← Json.optional Json.text? output
          purgerVersion := ← Json.optional Json.text? purgerVersion }
  | _ => none

def Statistics.ofJson? (document : Json) : Option Statistics := do
  let fields ← Json.fields? ["rules_total", "rules_retained", "rules_dropped", "classless_rules",
    "whitelist_size", "input_size_bytes", "output_size_bytes", "banner_kept",
    "processing_time_ms"] .complete document
  match fields with
  | [total, retained, dropped, classless, whitelistSize, inputSize, outputSize, banner, millis] =>
      some
        { rulesTotal := ← Json.required Json.word? total
          rulesRetained := ← Json.required Json.word? retained
          rulesDropped := ← Json.required Json.word? dropped
          classlessRules := ← Json.required Json.word? classless
          whitelistSize := ← Json.required Json.word? whitelistSize
          inputSize := ← Json.required Json.word? inputSize
          outputSize := ← Json.required Json.word? outputSize
          bannerKept := ← Json.required Json.bool? banner
          processingMillis := ← Json.optional Json.word? millis }
  | _ => none

/-- A name given twice takes its last count at its first place. -/
def Tally.ofJson? (document : Json) : Option Tally := do
  let members ← document.members?
  let pairs ← members.mapM fun (name, value) => value.word?.map fun count => (name, count)
  some (Tally.ofPairs pairs)

def Report.ofJson? (document : Json) : Option Report := do
  let fields ← Json.fields? ["metadata", "statistics", "retained_classes", "dropped_classes"]
    .complete document
  match fields with
  | [metadata, statistics, retained, dropped] =>
      some
        { metadata := ← Json.required Metadata.ofJson? metadata
          statistics := ← Json.required Statistics.ofJson? statistics
          retainedClasses := ← Json.required Tally.ofJson? retained
          droppedClasses := ← Json.required Tally.ofJson? dropped }
  | _ => none

def Report.read? (text : Text) : Option Report := (Json.read? text).bind Report.ofJson?

end StylePurge
