import StylePurge.CommandLine.Program
import StylePurge.Proofs.PurgeSources
import StylePurge.Proofs.TreeChange
import StylePurge.Proofs.WhitelistFile

/-!
The class names of some markup, listed into a file, stand in for the markup. The file
is read back as the names that were listed, in whatever form, and a purge that is given
the file in place of the markup comes to the same stylesheet.
-/

namespace StylePurge

namespace PurgeRequest

variable {request : PurgeRequest} {machine : Machine} {clock : Clock} {tree : FileTree}

/-- The request with a file of names as its only source. -/
def listing (request : PurgeRequest) (file : Path) : PurgeRequest :=
  { request with html := [], classes := [], whitelist := some file, config := none }

/-- The request with some markup as its only source. -/
def scanning (request : PurgeRequest) (classes : ClassesRequest) : PurgeRequest :=
  { request with
    html := classes.html
    exclude := classes.exclude
    classes := []
    whitelist := none
    config := none }

theorem listing_yields {file : Path} {listed : Whitelist} {css : Text}
    (consistent : (request.listing file).inconsistency? = none)
    (loaded : Whitelist.load tree file = .ok listed)
    (read : tree.readText request.input = .ok css) :
    (request.listing file).Yields machine clock tree
      ((Stylesheet.parse css).purge listed (!request.noBanner)) := by
  have found : (request.listing file).Found tree ⟨.default, listed, [], css⟩ :=
    { configured := rfl
      listed := loaded
      selected := Content.selected_nothing tree _ _
      stylesheet := read }
  have same (name : Text) : name ∈ listed ↔
      name ∈ (request.listing file).names ⟨.default, listed, [], css⟩ := by
    simp [names, listing, Config.default, Content.namesOf, OrderedSet.mem_iff_mem_to_list]
  have staffed : (request.listing file).Staffed machine .default := fun some => absurd rfl some
  obtain ⟨outcome, computed, text⟩ := css_of_found clock consistent found staffed same
  have yields := yields_of_outcome computed
  rw [text] at yields
  exact yields

theorem scanning_yields {classes : ClassesRequest} {paths : List Path} {used : Whitelist}
    {css : Text}
    (consistent : (request.scanning classes).inconsistency? = none)
    (found : (Content.discover tree classes.html classes.exclude .default).result = .ok paths)
    (collected : (Content.whitelist tree paths).result = .ok used)
    (started : Content.startWorkers machine request.jobs = .ok ())
    (read : tree.readText request.input = .ok css) :
    (request.scanning classes).Yields machine clock tree
      ((Stylesheet.parse css).purge used (!request.noBanner)) := by
  have some : classes.html ≠ [] := Content.patterns_of_discover found
  obtain ⟨any, files, selected, listed⟩ := Content.discover_eq_ok.1 found
  obtain ⟨pages, scanned, readable, rfl⟩ := Content.whitelist_eq_ok.1 collected
  have given : (request.scanning classes).patterns .default = classes.html := if_neg some
  have pagesFound : pages ≠ [] := by
    rintro rfl
    exact any scanned.symm
  have stands : (request.scanning classes).Found tree ⟨.default, .empty, pages, css⟩ :=
    { configured := rfl
      listed := rfl
      selected :=
        { nothing := fun none => absurd (given.symm.trans none) some
          files := fun _ => ⟨pagesFound, files, by rw [given]; exact selected,
            listed.trans scanned.symm⟩
          readable := readable }
      stylesheet := read }
  have same (name : Text) : name ∈ OrderedSet.ofList (Content.namesOf pages) ↔
      name ∈ (request.scanning classes).names ⟨.default, .empty, pages, css⟩ := by
    simp [names, scanning, Config.default, OrderedSet.mem_of_list, OrderedSet.empty]
  obtain ⟨outcome, computed, text⟩ := css_of_found clock consistent stands (fun _ => started) same
  have yields := yields_of_outcome computed
  rw [text] at yields
  exact yields

end PurgeRequest

namespace ClassesRequest

open PurgeRequest

variable {classes : ClassesRequest} {machine : Machine} {tree : FileTree} {used : Whitelist}

theorem outcome_eq_ok :
    (classes.outcome machine tree).result = .ok used ↔
      classes.inconsistency? = none ∧
        ∃ paths, (Content.discover tree classes.html classes.exclude .default).result = .ok paths ∧
          Content.startWorkers machine classes.jobs = .ok () ∧
            (Content.whitelist tree paths).result = .ok used := by
  rw [outcome]
  cases classes.inconsistency? with
  | some cause => simp
  | none =>
      simp only [Logged.result_bind, true_and, ← Content.scan_files_eq_ok]
      exact bind_eq_ok

/-- What is printed about the names is read back from a file of that kind. -/
theorem load_printed {file : Path} (collected : (classes.outcome machine tree).result = .ok used)
    (kind : Whitelist.isJsonPath file = classes.asJson) {holding : FileTree}
    (held : holding.readText file =
      .ok (CommandLine.Finish.ofClasses classes (classes.outcome machine tree).result).output) :
    ∃ listed, Whitelist.load holding file = .ok listed ∧ (∀ name, name ∈ listed ↔ name ∈ used) ∧
      (classes.asJson = true → listed = used) := by
  obtain ⟨_, paths, _, _, found⟩ := outcome_eq_ok.1 collected
  rw [collected] at held
  rw [Whitelist.load, held, kind]
  cases json : classes.asJson with
  | true =>
      refine ⟨used, ?_, fun name => Iff.rfl, fun _ => rfl⟩
      simp [CommandLine.Finish.ofClasses, CommandLine.Finish.success, json,
        Whitelist.read_json_to_json]
  | false =>
      refine ⟨Whitelist.ofLines used.toLines, ?_, ?_, nofun⟩
      · simp [CommandLine.Finish.ofClasses, CommandLine.Finish.success, json]
      · exact Whitelist.mem_of_lines_to_lines (Content.whitelist_is_name found)

theorem consistent_alike (purge : PurgeRequest) (file : Path) (some : classes.html ≠ []) :
    (purge.listing file).inconsistency? = (purge.scanning classes).inconsistency? := by
  have listed : (purge.listing file).hasSource = true := by simp [hasSource, listing]
  have scanned : (purge.scanning classes).hasSource = true := by simp [hasSource, scanning, some]
  unfold PurgeRequest.inconsistency?
  rw [listed, scanned]
  rfl

/-- Names that were found can be listed into a new file, one on a line or as an array.
The file is read back as these names, an array in their order. In place of the markup
it leads every purge to the same stylesheet, with the file in the tree or without, as long
as the workers that are to scan the markup can be started. -/
theorem listing_stands_for_scan (classes : ClassesRequest) (machine : Machine) (tree : FileTree)
    (file : Path) (location : Location) (used : Whitelist)
    (collected : (classes.outcome machine tree).result = .ok used)
    (found : tree.locate .create file = .ok location) (free : tree.entry? location = none)
    (kind : Whitelist.isJsonPath file = classes.asJson) :
    let printed := (CommandLine.Finish.ofClasses classes (classes.outcome machine tree).result).output
    let extended := tree.added location (Text.encode printed)
    (∃ listed, Whitelist.load extended file = .ok listed ∧ (∀ name, name ∈ listed ↔ name ∈ used) ∧
        (classes.asJson = true → listed = used)) ∧
      ∀ (purge : PurgeRequest) (css : Text), tree.readText purge.input = .ok css →
        (purge.listing file).inconsistency? = (purge.scanning classes).inconsistency? ∧
          ((purge.scanning classes).inconsistency? = none → ∀ other clock later,
            let text := (Stylesheet.parse css).purge used (!purge.noBanner)
            (purge.listing file).Yields other clock extended text ∧
              (Content.startWorkers other purge.jobs = .ok () →
                (purge.scanning classes).Yields other later tree text)) := by
  intro printed extended
  have held : extended.readText file = .ok printed := FileTree.read_added found free
  obtain ⟨listed, loaded, same, exact⟩ := load_printed collected kind held
  obtain ⟨_, paths, discovered, _, names⟩ := outcome_eq_ok.1 collected
  refine ⟨⟨listed, loaded, same, exact⟩, ?_⟩
  intro purge css read
  have alike := consistent_alike purge file (Content.patterns_of_discover discovered)
  refine ⟨alike, ?_⟩
  intro consistent other clock later text
  constructor
  · have stillRead : extended.readText purge.input = .ok css :=
      FileTree.read_text_of_extends (FileTree.extends_added free _) read
    have shown : (Stylesheet.parse css).purge listed (!purge.noBanner) = text :=
      Stylesheet.purge_same_names same _
    rw [← shown]
    exact listing_yields (alike.trans consistent) loaded stillRead
  · intro started
    exact scanning_yields consistent discovered names started read

theorem listing_stands_for_scan_array :
    let tree : FileTree :=
      ⟨[['w']], [([['w']], .directory), ([['w'], ['h']], .file 0), ([['w'], ['i']], .file 1)],
        [Text.encode ['c', 'l', 'a', 's', 's', '=', '"', 'b', ' ', 'a', '"'],
          Text.encode ['.', 'a', '{', '}', '.', 'c', '{', '}']]⟩
    let classes : ClassesRequest :=
      { html := [['h']], exclude := [['x'], ['x']], asJson := true, verbose := false, jobs := none }
    let file : Path := ⟨['f', '.', 'j', 's', 'o', 'n']⟩
    let printed : Text :=
      ['[', '\n', ' ', ' ', '"', 'b', '"', ',', '\n', ' ', ' ', '"', 'a', '"', '\n', ']', '\n']
    let listedTree := tree.added [['w'], file.text] (Text.encode printed)
    let purge : PurgeRequest :=
      { input := ⟨['i']⟩, output := ⟨['o']⟩, html := [], exclude := [], classes := []
        whitelist := none, config := none, report := none, noBanner := false
        allowEmpty := false, dryRun := false, verbose := false, jobs := none }
    let machine : Machine := .willing
    let clock : Clock := ⟨.epoch, 0⟩
    Whitelist.load listedTree file = .ok (.ofList [['b'], ['a']]) ∧
      (purge.listing file).Yields machine clock listedTree ['.', 'a', '{', '}', '\n'] ∧
      (purge.scanning classes).Yields machine clock tree ['.', 'a', '{', '}', '\n'] := by
  intro tree classes file printed listedTree purge machine clock
  -- The search for files recurses on a measure, which evaluation does not get through; a
  -- pattern without wildcards is settled without it.
  have expanded : Glob.expand tree ['h'] = .ok [⟨['h']⟩] := by
    have query : Glob.Query.ofPattern ['h'] = .ok ⟨⟨Path.dot⟩, [⟨[.char 'h']⟩], false⟩ :=
      to_option_eq_some.1 (by decide +kernel)
    have literal : Glob.Pattern.literal? ⟨[.char 'h']⟩ = some ['h'] := by decide +kernel
    exact Glob.expand_literal query literal (by decide) (by decide +kernel)
  have compiled : classes.exclude.mapM Glob.compile = .ok [⟨[.char 'x']⟩, ⟨[.char 'x']⟩] :=
    to_option_eq_some.1 (by decide +kernel)
  have discovered : (Content.discover tree [['h']] classes.exclude .default).result =
      .ok [⟨['h']⟩] := by
    rw [Content.discover_result, Content.select, compiled]
    dsimp only
    rw [Content.selectFrom, expanded]
    apply to_option_eq_some.1
    decide +kernel
  have names : (Content.whitelist tree [⟨['h']⟩]).result = .ok (.ofList [['b'], ['a']]) :=
    to_option_eq_some.1 (by decide +kernel)
  have collected : (classes.outcome machine tree).result = .ok (.ofList [['b'], ['a']]) :=
    outcome_eq_ok.2 ⟨rfl, [⟨['h']⟩], discovered, rfl, names⟩
  have shown : (CommandLine.Finish.ofClasses classes (classes.outcome machine tree).result).output =
      printed := by
    rw [collected]
    decide +kernel
  have found : tree.locate .create file = .ok [['w'], file.text] :=
    to_option_eq_some.1 (by decide +kernel)
  have free : tree.entry? [['w'], file.text] = none := by decide +kernel
  have css : tree.readText purge.input = .ok ['.', 'a', '{', '}', '.', 'c', '{', '}'] :=
    to_option_eq_some.1 (by decide +kernel)
  have kept : (Stylesheet.parse ['.', 'a', '{', '}', '.', 'c', '{', '}']).purge
      (OrderedSet.ofList [['b'], ['a']]) (!purge.noBanner) = ['.', 'a', '{', '}', '\n'] := by
    decide +kernel
  obtain ⟨⟨listed, loaded, _, same⟩, purges⟩ :=
    listing_stands_for_scan classes machine tree file [['w'], file.text] (.ofList [['b'], ['a']])
      collected found free (by decide +kernel)
  rw [shown] at loaded purges
  obtain ⟨_, yields⟩ := purges purge _ css
  have both := yields (by decide +kernel) machine clock clock
  rw [kept] at both
  rw [same rfl] at loaded
  exact ⟨loaded, both.1, both.2 rfl⟩

end ClassesRequest

end StylePurge
