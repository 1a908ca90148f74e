import StylePurge.Stylesheet
import StylePurge.Tally
import StylePurge.Timestamp

/-!
Reports on a purge: how many rules were kept and dropped, how large input and
output are, and which classes the kept and the dropped rules select.
-/

namespace StylePurge

structure Metadata where
  version : Text
  generatedAt : Timestamp
  input : Option Text
  output : Option Text
  purgerVersion : Option Text
  deriving DecidableEq

/-- Sizes are in bytes. Rules without classes count as retained, too. -/
structure Statistics where
  rulesTotal : Nat
  rulesRetained : Nat
  rulesDropped : Nat
  classlessRules : Nat
  whitelistSize : Nat
  inputSize : Nat
  outputSize : Nat
  bannerKept : Bool
  processingMillis : Option Nat
  deriving DecidableEq, Repr

/-- Retained classes are whitelisted classes with the number of retained rules
that select them; dropped classes are those whose rules were all dropped. -/
structure Report where
  metadata : Metadata
  statistics : Statistics
  retainedClasses : Tally
  droppedClasses : Tally

namespace Report

def formatVersion : Text := ['1', '.', '0', '.', '0']

def purgerVersion : Text := ['0', '.', '1', '.', '0']

/-- Counts over the rules seen so far. `kept` holds every class of a kept rule. -/
structure Count where
  classless : Nat
  retained : Nat
  dropped : Nat
  retainedClasses : Tally
  droppedClasses : Tally
  kept : OrderedSet Text

def Count.start : Count := ⟨0, 0, 0, .empty, .empty, .empty⟩

def Count.add (whitelist : Whitelist) (count : Count) (rule : Rule) : Count :=
  let classes := rule.classes.toList
  if rule.isClassless then
    { count with classless := count.classless + 1, retained := count.retained + 1 }
  else if rule.isKeptBy whitelist then
    { count with
      retained := count.retained + 1
      kept := count.kept.insertAll classes
      retainedClasses :=
        (classes.filter whitelist.contains).foldl Tally.increment count.retainedClasses }
  else
    { count with
      dropped := count.dropped + 1
      droppedClasses := classes.foldl Tally.increment count.droppedClasses }

def count (rules : List Rule) (whitelist : Whitelist) : Count :=
  rules.foldl (Count.add whitelist) Count.start

/-- A class that a kept rule selects as well is not reported as dropped. -/
def Count.purgedClasses (count : Count) : Tally :=
  count.droppedClasses.retain fun name => !count.kept.contains name

def showsBanner (sheet : Stylesheet) (output : Text) : Bool :=
  !sheet.banner.isEmpty && output.startsWith ['/', '*', ' ']

def ofPurge (generatedAt : Timestamp) (sheet : Stylesheet) (whitelist : Whitelist)
    (inputSize : Nat) (output : Text) : Report :=
  let count := count sheet.rules whitelist
  { metadata := ⟨formatVersion, generatedAt, none, none, some purgerVersion⟩
    statistics :=
      { rulesTotal := sheet.rules.length
        rulesRetained := count.retained
        rulesDropped := count.dropped
        classlessRules := count.classless
        whitelistSize := whitelist.size
        inputSize := inputSize
        outputSize := Text.byteSize output
        bannerKept := showsBanner sheet output
        processingMillis := none }
    retainedClasses := count.retainedClasses
    droppedClasses := count.purgedClasses }

def withPaths (report : Report) (input output : Text) : Report :=
  { report with metadata := { report.metadata with input := some input, output := some output } }

def withProcessingTime (report : Report) (millis : Nat) : Report :=
  { report with statistics := { report.statistics with processingMillis := some millis } }

end Report

/-- Share of the input bytes that the purge removed. It is zero for an empty
input and negative when the output is larger than the input. -/
def Statistics.reductionRatio (statistics : Statistics) : Float :=
  if statistics.inputSize = 0 then 0.0
  else
    1.0 - (UInt64.ofNat statistics.outputSize).toFloat / (UInt64.ofNat statistics.inputSize).toFloat

end StylePurge
