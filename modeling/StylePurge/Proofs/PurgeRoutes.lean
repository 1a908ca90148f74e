import StylePurge.CommandLine.Program
import StylePurge.Proofs.InputKept
import StylePurge.Proofs.PurgeSources
import StylePurge.Proofs.TextEncoding

/-!
The ways to purge a stylesheet. A text can be passed through, a file can be purged with
the settings of a request, or a stylesheet can be loaded and purged into a file. With the
same names and the same choice about the banner all of them come to the same text, in
whatever order and however often the names are given.
-/

namespace StylePurge

namespace Stylesheet

variable {tree : FileTree} {path : Path}

theorem load_result {css : Text} (held : tree.readText path = .ok css) :
    (load tree path).result = .ok (parse css) := by
  rw [load, held]

/-- The text that a stylesheet is purged to, also when it goes to a file: any tree is
left as by writing the text, and nothing but writing it can fail. -/
structure PurgesTo (sheet : Stylesheet) (names : Whitelist) (keepBanner : Bool) (text : Text) :
    Prop where
  purged : sheet.purge names keepBanner = text
  tree : ∀ path machine tree,
    (sheet.purgeInto names keepBanner path machine tree).tree =
      (Delivery.writeFile machine path text tree).2
  succeeds : ∀ path machine tree,
    (sheet.purgeInto names keepBanner path machine tree).outcome.result = .ok () ↔
      (Delivery.writeFile machine path text tree).1 = .ok ()

theorem purge_into_eq (sheet : Stylesheet) (names : Whitelist) (keepBanner : Bool) (path : Path)
    (machine : Machine) (tree : FileTree) :
    (sheet.purgeInto names keepBanner path machine tree).tree =
        (Delivery.writeFile machine path (sheet.purge names keepBanner) tree).2 ∧
      ((sheet.purgeInto names keepBanner path machine tree).outcome.result = .ok () ↔
        (Delivery.writeFile machine path (sheet.purge names keepBanner) tree).1 = .ok ()) := by
  rw [Delivery.write_file_eq, purgeInto]
  generalize Change.makeParents machine path tree = parents
  obtain ⟨result, prepared⟩ := parents
  cases result with
  | error fault => simp
  | ok _ =>
      dsimp only
      generalize Change.replaceFile machine path _ prepared = replaced
      obtain ⟨result, written⟩ := replaced
      cases result with
      | error fault => simp
      | ok _ => simp

theorem purges_to_of_purge {sheet : Stylesheet} {names : Whitelist} {keepBanner : Bool}
    {text : Text} (same : sheet.purge names keepBanner = text) :
    sheet.PurgesTo names keepBanner text where
  purged := same
  tree := fun path machine tree => by
    rw [(purge_into_eq sheet names keepBanner path machine tree).1, same]
  succeeds := fun path machine tree => by
    rw [(purge_into_eq sheet names keepBanner path machine tree).2, same]

end Stylesheet

namespace PurgeRequest

open CommandLine

variable {request : PurgeRequest} {machine : Machine} {clock : Clock} {tree : FileTree}
variable {outcome : Outcome}

/-- The text that a request leads to wherever it shows: in the outcome, in what a dry run
prints and in the first file that is written. -/
structure LeadsTo (request : PurgeRequest) (machine : Machine) (clock : Clock)
    (tree : FileTree) (text : Text) : Prop where
  yields : request.Yields machine clock tree text
  printed : ∀ input,
    (perform (.purge { request with dryRun := true }) input machine clock tree).finish =
      .success text
  written : request.dryRun = false → ∃ report,
    (request.run machine clock tree).tree =
      (Delivery.writeFiles machine tree ((request.output, text) :: report)).2

theorem leads_to_of_outcome
    (computed : (request.outcome machine clock tree).result = .ok outcome) :
    request.LeadsTo machine clock tree outcome.css where
  yields := yields_of_outcome computed
  printed := fun input => by
    have finished : ({ request with dryRun := true }.run machine clock tree).outcome.result =
        .ok outcome := by
      rw [run_result, outcome_dry_run, computed]
      rfl
    rw [perform, finished]
    rfl
  written := fun writes => by
    refine ⟨request.report.toList.map fun path => (path, outcome.report.toPrettyText), ?_⟩
    rw [run_tree, computed, writes]
    rfl

end PurgeRequest

namespace PipeRequest

open PurgeRequest CommandLine

variable {pipe : PipeRequest} {request : PurgeRequest} {machine : Machine} {clock : Clock}
variable {tree : FileTree} {css : Text} {listed : Whitelist}

/-- The request for a file that asks for what is asked for the text passed through. -/
def onFile (pipe : PipeRequest) (request : PurgeRequest) : PurgeRequest :=
  { request with
    html := []
    classes := pipe.classes
    whitelist := pipe.whitelist
    config := none
    noBanner := pipe.noBanner
    allowEmpty := true }

/-- The purged text that all ways lead to. -/
def purged (pipe : PipeRequest) (listed : Whitelist) (css : Text) : Text :=
  (Stylesheet.parse css).purge ((OrderedSet.ofList pipe.classes).union listed) (!pipe.noBanner)

theorem purge_named (pipe : PipeRequest) {names : Whitelist}
    (same : ∀ name, name ∈ names ↔ name ∈ pipe.classes ∨ name ∈ listed) :
    (Stylesheet.parse css).purge names (!pipe.noBanner) = pipe.purged listed css := by
  apply Stylesheet.purge_same_names
  intro name
  rw [same, OrderedSet.mem_union, OrderedSet.mem_of_list]

theorem outcome_result (pipe : PipeRequest) (tree : FileTree) (css : Text) :
    (pipe.outcome tree (Text.encode css)).result =
      (listedNames tree pipe.whitelist).map fun listed => pipe.purged listed css := by
  rw [outcome, Text.decode_encode]
  simp only [Logged.result_bind, Logged.result_of_except, Logged.result_report,
    Logged.result_pure]
  cases listedNames tree pipe.whitelist with
  | error error => rfl
  | ok listed => rfl

theorem outcome_on_file (machine : Machine) (clock : Clock)
    (held : tree.readText request.input = .ok css)
    (known : listedNames tree pipe.whitelist = .ok listed)
    (consistent : (pipe.onFile request).inconsistency? = none) :
    ∃ outcome, ((pipe.onFile request).outcome machine clock tree).result = .ok outcome ∧
      outcome.css = pipe.purged listed css := by
  have found : (pipe.onFile request).Found tree ⟨.default, listed, [], css⟩ :=
    { configured := rfl
      listed := listed_names_eq_ok.1 known
      selected := Content.selected_nothing tree _ _
      stylesheet := held }
  apply css_of_found clock consistent found fun some => absurd rfl some
  intro name
  rw [OrderedSet.mem_union, OrderedSet.mem_of_list]
  simp [names, onFile, Config.default, Content.namesOf, OrderedSet.mem_iff_mem_to_list]

theorem failure_on_file (machine : Machine) (clock : Clock) {error : Error}
    (unknown : listedNames tree pipe.whitelist = .error error)
    (consistent : (pipe.onFile request).inconsistency? = none) :
    ((pipe.onFile request).outcome machine clock tree).result = .error error := by
  have names : listedNames tree (pipe.onFile request).whitelist = .error error := unknown
  have settled : (pipe.onFile request).settings tree =
      .ok (Config.default.merge (pipe.onFile request).overlay) := rfl
  have gathered (config : Config) :
      ((pipe.onFile request).gatherWhitelist machine tree config).result = .error error := by
    rw [gatherWhitelist, Logged.result_bind, Logged.result_of_except, names]
    rfl
  rw [PurgeRequest.outcome_result, consistent, settled]
  simp only [gathered]
  rfl

/-- A text passed through, a file with the text purged for the same names, and the
stylesheet of the file purged into another file come to one text, unless the file of
names cannot be loaded. Then the first two fail alike. -/
theorem routes_agree (pipe : PipeRequest) (request : PurgeRequest) (machine : Machine)
    (clock : Clock) (tree : FileTree) (css : Text)
    (held : tree.readText request.input = .ok css) :
    (∀ error, listedNames tree pipe.whitelist = .error error →
      (pipe.outcome tree (Text.encode css)).result = .error error ∧
        ((pipe.onFile request).inconsistency? = none →
          ((pipe.onFile request).outcome machine clock tree).result = .error error)) ∧
      ∀ listed, listedNames tree pipe.whitelist = .ok listed → ∃ text,
        (perform (.pipe pipe) (Text.encode css) machine clock tree).finish = .success text ∧
          ((pipe.onFile request).inconsistency? = none →
            (pipe.onFile request).LeadsTo machine clock tree text) ∧
          ∃ sheet, (Stylesheet.load tree request.input).result = .ok sheet ∧
            ∀ names : Whitelist, (∀ name, name ∈ names ↔ name ∈ pipe.classes ∨ name ∈ listed) →
              sheet.PurgesTo names (!pipe.noBanner) text := by
  refine ⟨?_, ?_⟩
  · intro error unknown
    refine ⟨?_, failure_on_file machine clock unknown⟩
    rw [outcome_result, unknown]
    rfl
  · intro listed known
    refine ⟨pipe.purged listed css, ?_, ?_, .parse css, Stylesheet.load_result held, ?_⟩
    · rw [perform, outcome_result, known]
      rfl
    · intro consistent
      obtain ⟨outcome, computed, same⟩ := outcome_on_file machine clock held known consistent
      rw [← same]
      exact leads_to_of_outcome computed
    · intro names same
      exact Stylesheet.purges_to_of_purge (purge_named pipe same)

theorem routes_agree_repeated_names :
    let css : Text := Text.ofString "/*!b*/.a\x7b\x7d.x\x7b\x7d.b\x7b\x7d"
    let text : Text := Text.ofString ".a\x7b\x7d\n.b\x7b\x7d\n"
    let file : Path := ⟨Text.ofString "n.json"⟩
    let tree : FileTree :=
      ⟨[['w']], [([['w']], .directory), ([['w'], ['i']], .file 0), ([['w'], file.text], .file 1)],
        [Text.encode css, Text.encode (Text.ofString "[\"b\",\"a\",\"b\"]")]⟩
    let pipe : PipeRequest := { classes := [['b'], ['b']], whitelist := some file, noBanner := true }
    let request : PurgeRequest :=
      { input := ⟨['i']⟩, output := ⟨['o']⟩, html := [], exclude := [], classes := []
        whitelist := none, config := none, report := none, noBanner := false
        allowEmpty := false, dryRun := false, verbose := false, jobs := none }
    let machine : Machine := .willing
    let clock : Clock := ⟨.epoch, 0⟩
    (perform (.pipe pipe) (Text.encode css) machine clock tree).finish = .success text ∧
      (pipe.onFile request).LeadsTo machine clock tree text ∧
      ∃ sheet, (Stylesheet.load tree request.input).result = .ok sheet ∧
        sheet.PurgesTo (.ofList [['b'], ['a']]) false text := by
  intro css text file tree pipe request machine clock
  have held : tree.readText request.input = .ok css := to_option_eq_some.1 (by decide +kernel)
  have known : listedNames tree pipe.whitelist = .ok (.ofList [['b'], ['a']]) :=
    to_option_eq_some.1 (by decide +kernel)
  have shown : (perform (.pipe pipe) (Text.encode css) machine clock tree).finish =
      .success text := by
    decide +kernel
  obtain ⟨_, routes⟩ := routes_agree pipe request machine clock tree css held
  obtain ⟨found, piped, leads, sheet, loaded, written⟩ := routes _ known
  have same : found = text := congrArg Finish.output (piped.symm.trans shown)
  rw [same] at leads written
  have alike (name : Text) : name ∈ OrderedSet.ofList [['b'], ['a']] ↔
      name ∈ [['b'], ['b']] ∨ name ∈ OrderedSet.ofList [['b'], ['a']] := by
    simp only [OrderedSet.mem_of_list, List.mem_cons, List.not_mem_nil, or_false, or_self,
      or_self_left]
  have consistent : (pipe.onFile request).inconsistency? = none := by decide +kernel
  exact ⟨shown, leads consistent, sheet, loaded, written _ alike⟩

end PipeRequest

end StylePurge
