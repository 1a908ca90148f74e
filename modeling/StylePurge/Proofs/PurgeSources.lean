import StylePurge.Proofs.ContentNames
import StylePurge.Proofs.PurgeRun
import StylePurge.Proofs.RelevantClasses

/-!
What a purge is made of. A run reads a configuration, a list of names, the content files
that the patterns select and a stylesheet; what it comes to is said by these and the
request alone: which source decides where both could, in what order names from all
sources stand, and which stylesheet is purged with them.
-/

namespace StylePurge

namespace Config

/-- Names left out because they are there already do not change what is listed. -/
theorem of_list_append_new (entries additions : List Text) :
    OrderedSet.ofList (appendNew entries additions) = .ofList (entries ++ additions) := by
  induction additions using List.reverseRecOn with
  | nil =>
      rw [List.append_nil]
      rfl
  | append_singleton front last induction =>
      rw [← List.append_assoc, OrderedSet.of_list_concat, ← induction, append_new_concat]
      by_cases known : last ∈ appendNew entries front
      · rw [if_pos known]
        exact (OrderedSet.insert_known (OrderedSet.mem_of_list.2 known)).symm
      · rw [if_neg known, OrderedSet.of_list_concat]

end Config

namespace Content

variable {tree : FileTree} {patterns exclude : List Text} {limits : Limits} {paths : List Path}
variable {used : Whitelist} {found : Whitelist × Nat} {machine : Machine} {jobs : Option Nat}

/-- Class names page after page. -/
def namesOf (pages : List (Path × Text)) : List Text :=
  pages.flatMap fun page => (Markup.classes page.2).toList

theorem file_classes_eq_ok {path : Path} {names : OrderedSet Text} :
    fileClasses tree path = .ok names ↔
      ∃ markup, tree.readText path = .ok markup ∧ Markup.classes markup = names := by
  unfold fileClasses
  cases tree.readText path with
  | error fault => simp
  | ok markup => simp

theorem map_m_file_classes_eq_ok {perFile : List (OrderedSet Text)} :
    paths.mapM (fileClasses tree) = .ok perFile ↔
      ∃ pages : List (Path × Text), pages.map Prod.fst = paths ∧
        (∀ page ∈ pages, tree.readText page.1 = .ok page.2) ∧
          pages.map (fun page => Markup.classes page.2) = perFile := by
  rw [map_m_eq_ok]
  constructor
  · intro related
    induction related with
    | nil => exact ⟨[], rfl, by simp, rfl⟩
    | cons here _ induction =>
        obtain ⟨markup, read, names⟩ := file_classes_eq_ok.1 here
        obtain ⟨pages, same, readable, classes⟩ := induction
        refine ⟨(_, markup) :: pages, ?_, List.forall_mem_cons.2 ⟨read, readable⟩, ?_⟩
        · rw [List.map_cons, same]
        · rw [List.map_cons, classes, names]
  · rintro ⟨pages, rfl, readable, rfl⟩
    induction pages with
    | nil => exact .nil
    | cons page rest induction =>
        obtain ⟨read, others⟩ := List.forall_mem_cons.1 readable
        exact .cons (file_classes_eq_ok.2 ⟨page.2, read, rfl⟩) (induction others)

theorem whitelist_eq_ok :
    (whitelist tree paths).result = .ok used ↔
      ∃ pages : List (Path × Text), pages.map Prod.fst = paths ∧
        (∀ page ∈ pages, tree.readText page.1 = .ok page.2) ∧ used = .ofList (namesOf pages) := by
  have merged (pages : List (Path × Text)) :
      merge (pages.map fun page => Markup.classes page.2) = .ofList (namesOf pages) := by
    rw [merge_eq, List.flatMap_map]
    rfl
  rw [whitelist_result]
  constructor
  · intro success
    cases read : paths.mapM (fileClasses tree) with
    | error error =>
        rw [read] at success
        exact nomatch success
    | ok perFile =>
        rw [read] at success
        obtain ⟨pages, same, readable, rfl⟩ := map_m_file_classes_eq_ok.1 read
        exact ⟨pages, same, readable, by rw [← merged]; exact (Except.ok.inj success).symm⟩
  · rintro ⟨pages, same, readable, rfl⟩
    rw [map_m_file_classes_eq_ok.2 ⟨pages, same, readable, rfl⟩, Except.map, merged]

theorem scan_files_eq_ok :
    (scanFiles machine jobs tree paths).result = .ok used ↔
      startWorkers machine jobs = .ok () ∧ (whitelist tree paths).result = .ok used := by
  rw [scanFiles, Logged.result_bind, Logged.result_of_except]
  cases startWorkers machine jobs with
  | error error => exact ⟨nofun, nofun⟩
  | ok _ => exact ⟨fun success => ⟨rfl, success⟩, fun ⟨_, success⟩ => success⟩

/-- The pages are the texts of the selected files. Without patterns there are none, with
patterns there is at least one. -/
structure Selected (tree : FileTree) (patterns exclude : List Text) (limits : Limits)
    (pages : List (Path × Text)) : Prop where
  nothing : patterns = [] → pages = []
  files : patterns ≠ [] → pages ≠ [] ∧
    ∃ files, (collect tree patterns exclude limits).result = .ok files ∧
      files.map ContentFile.path = pages.map Prod.fst
  readable : ∀ page ∈ pages, tree.readText page.1 = .ok page.2

theorem Selected.same {other : List Text} {pages : List (Path × Text)}
    (selected : Selected tree patterns exclude limits pages)
    (same : ∀ entry, entry ∈ other ↔ entry ∈ exclude) :
    Selected tree patterns other limits pages where
  nothing := selected.nothing
  files := fun some => by
    obtain ⟨any, files, collected, listed⟩ := selected.files some
    exact ⟨any, files, collect_same same collected, listed⟩
  readable := selected.readable

theorem selected_nothing (tree : FileTree) (exclude : List Text) (limits : Limits) :
    Selected tree [] exclude limits [] where
  nothing := fun _ => rfl
  files := fun some => absurd rfl some
  readable := by simp

/-- A scan needs workers only if there is something to look for. -/
theorem scan_eq_ok :
    (scan machine jobs tree patterns exclude limits).result = .ok found ↔
      (patterns ≠ [] → startWorkers machine jobs = .ok ()) ∧
        ∃ pages, Selected tree patterns exclude limits pages ∧
          found = (.ofList (namesOf pages), pages.length) := by
  by_cases empty : patterns = []
  · subst empty
    rw [scan_nothing, Except.ok.injEq]
    constructor
    · rintro rfl
      exact ⟨fun some => absurd rfl some, [], selected_nothing tree exclude limits, rfl⟩
    · rintro ⟨_, pages, selected, rfl⟩
      rw [selected.nothing rfl]
      rfl
  · have some : patterns.isEmpty = false := by simpa using empty
    have stages : (scan machine jobs tree patterns exclude limits).result =
        (discover tree patterns exclude limits).result >>= fun paths =>
          (scanFiles machine jobs tree paths).result >>= fun used =>
            .ok (used, paths.length) := by
      rw [scan, some]
      simp only [Bool.false_eq_true, if_false, Logged.result_bind, Logged.result_pure]
      rfl
    rw [stages, bind_eq_ok]
    simp only [bind_eq_ok, discover_eq_ok, scan_files_eq_ok, whitelist_eq_ok, Except.ok.injEq]
    constructor
    · rintro ⟨paths, ⟨any, files, collected, rfl⟩, _, ⟨started, pages, same, readable, rfl⟩, rfl⟩
      refine ⟨fun _ => started, pages, ⟨fun none => absurd none empty,
        fun _ => ⟨?_, files, collected, same.symm⟩, readable⟩, ?_⟩
      · rintro rfl
        exact any same.symm
      · rw [← same, List.length_map]
    · rintro ⟨started, pages, selected, rfl⟩
      obtain ⟨any, files, collected, same⟩ := selected.files empty
      refine ⟨pages.map Prod.fst, ⟨by simpa using any, files, collected, same⟩, _,
        ⟨started empty, pages, rfl, selected.readable, rfl⟩, by rw [List.length_map]⟩

end Content

/-- What a purge reads: the configuration, which is the default one if no file is named,
the names of the whitelist file, the selected content files with their texts, and the
stylesheet. -/
structure Sources where
  config : Config
  listed : Whitelist
  pages : List (Path × Text)
  css : Text

namespace PurgeRequest

variable {request : PurgeRequest} {machine : Machine} {clock : Clock} {tree : FileTree}
variable {outcome : Outcome} {config : Config} {sources : Sources}

/-- Patterns on the command line replace those of the configuration. -/
def patterns (request : PurgeRequest) (config : Config) : List Text :=
  if request.html = [] then config.content else request.html

/-- Every source is what stands in the tree. -/
structure Found (request : PurgeRequest) (tree : FileTree) (sources : Sources) : Prop where
  configured :
    match request.config with
    | some path => Config.load tree path = .ok sources.config
    | none => sources.config = .default
  listed :
    match request.whitelist with
    | some path => Whitelist.load tree path = .ok sources.listed
    | none => sources.listed = .empty
  selected : Content.Selected tree (request.patterns sources.config)
    (sources.config.exclude ++ request.exclude) sources.config.limits sources.pages
  stylesheet : tree.readText request.input = .ok sources.css

/-- The workers that are asked for can be started, if there are files to scan. -/
def Staffed (request : PurgeRequest) (machine : Machine) (config : Config) : Prop :=
  request.patterns config ≠ [] → Content.startWorkers machine request.jobs = .ok ()

theorem config_of_found {others : Sources} (found : request.Found tree sources)
    (foundToo : request.Found tree others) : others.config = sources.config := by
  have first := found.configured
  have second := foundToo.configured
  cases named : request.config with
  | none =>
      simp only [named] at first second
      rw [first, second]
  | some path =>
      simp only [named] at first second
      exact Except.ok.inj (second.symm.trans first)

/-- All names from all sources, as often as they are given. -/
def names (request : PurgeRequest) (sources : Sources) : List Text :=
  sources.config.safelist ++ request.classes ++ sources.listed.toList ++
    Content.namesOf sources.pages

theorem settings_eq_ok :
    request.settings tree = .ok config ↔
      ∃ base, (match request.config with
        | some path => Config.load tree path = .ok base
        | none => base = .default) ∧ base.merge request.overlay = config := by
  rw [settings]
  cases request.config with
  | none => simp [bind_eq_ok, pure, Except.pure]
  | some path => simp [bind_eq_ok, pure, Except.pure]

theorem listed_names_eq_ok {source : Option Path} {listed : Whitelist} :
    listedNames tree source = .ok listed ↔
      match source with
      | some path => Whitelist.load tree path = .ok listed
      | none => listed = .empty := by
  cases source with
  | none => simp [listedNames, eq_comm]
  | some path => rfl

theorem gather_eq_ok {names : Whitelist × Nat} :
    (request.gatherWhitelist machine tree config).result = .ok names ↔
      ∃ listed, listedNames tree request.whitelist = .ok listed ∧
        ∃ found, (Content.scan machine request.jobs tree config.content config.exclude
            config.limits).result = .ok found ∧
          ((config.whitelist.union listed).union found.1, found.2) = names := by
  have stages : (request.gatherWhitelist machine tree config).result =
      listedNames tree request.whitelist >>= fun listed =>
        (Content.scan machine request.jobs tree config.content config.exclude
            config.limits).result >>= fun found =>
          .ok ((config.whitelist.union listed).union found.1, found.2) := by
    rw [gatherWhitelist]
    simp only [Logged.result_bind, Logged.result_of_except, Logged.result_report,
      Logged.result_pure]
    rfl
  rw [stages]
  simp only [bind_eq_ok, Except.ok.injEq]

theorem read_input_eq_ok {css : Text} :
    request.readInput tree = .ok css ↔ tree.readText request.input = .ok css := by
  rw [readInput]
  cases tree.readText request.input with
  | ok found => simp
  | error fault => cases fault <;> exact ⟨nofun, nofun⟩

theorem merged_content (request : PurgeRequest) (config : Config) :
    (config.merge request.overlay).content = request.patterns config := by
  simp [Config.merge, overlay, patterns]

theorem merged_names (request : PurgeRequest) (sources : Sources) :
    ((sources.config.merge request.overlay).whitelist.union sources.listed).union
        (.ofList (Content.namesOf sources.pages)) = .ofList (request.names sources) := by
  have safe : (sources.config.merge request.overlay).whitelist =
      .ofList (sources.config.safelist ++ request.classes) :=
    Config.of_list_append_new sources.config.safelist request.classes
  rw [safe, OrderedSet.union_of_list, OrderedSet.union, ← OrderedSet.of_list_append,
    ← OrderedSet.of_list_append]
  rfl

/-- A run gets through its stages just when every source is there and can be scanned, and
what it comes to is made of the sources. -/
theorem outcome_eq_ok_sources :
    (request.outcome machine clock tree).result = .ok outcome ↔
      request.inconsistency? = none ∧ ∃ sources, request.Found tree sources ∧
        request.Staffed machine sources.config ∧
          request.finished clock (sources.config.merge request.overlay)
            (.ofList (request.names sources), sources.pages.length) sources.css = outcome := by
  rw [outcome_eq_ok]
  apply and_congr_right
  intro _
  have same (config : Config) (entry : Text) :
      entry ∈ (config.merge request.overlay).exclude ↔ entry ∈ config.exclude ++ request.exclude := by
    rw [List.mem_append]
    exact Config.mem_append_new
  constructor
  · rintro ⟨_, _, css, settled, gathered, read, rfl⟩
    obtain ⟨config, configured, rfl⟩ := settings_eq_ok.1 settled
    obtain ⟨listed, known, found, scanned, rfl⟩ := gather_eq_ok.1 gathered
    obtain ⟨staffed, pages, selected, rfl⟩ := Content.scan_eq_ok.1 scanned
    rw [merged_content] at selected staffed
    refine ⟨⟨config, listed, pages, css⟩, ⟨configured, listed_names_eq_ok.1 known, ?_,
      read_input_eq_ok.1 read⟩, staffed, ?_⟩
    · exact selected.same fun entry => (same config entry).symm
    · rw [← merged_names]
  · rintro ⟨sources, found, staffed, rfl⟩
    refine ⟨_, _, sources.css, settings_eq_ok.2 ⟨sources.config, found.configured, rfl⟩,
      gather_eq_ok.2 ⟨sources.listed, listed_names_eq_ok.2 found.listed, _,
        Content.scan_eq_ok.2 ⟨?_, sources.pages, ?_, rfl⟩, rfl⟩,
      read_input_eq_ok.2 found.stylesheet, ?_⟩
    · rw [merged_content]
      exact staffed
    · rw [merged_content]
      exact found.selected.same (same sources.config)
    · rw [merged_names]

theorem outcome_of_found (clock : Clock) (consistent : request.inconsistency? = none)
    (found : request.Found tree sources) (staffed : request.Staffed machine sources.config) :
    (request.outcome machine clock tree).result =
      .ok (request.finished clock (sources.config.merge request.overlay)
        (.ofList (request.names sources), sources.pages.length) sources.css) :=
  outcome_eq_ok_sources.2 ⟨consistent, sources, found, staffed, rfl⟩

/-- Any whitelist of the same names purges alike. -/
theorem css_of_found (clock : Clock) (consistent : request.inconsistency? = none)
    (found : request.Found tree sources) (staffed : request.Staffed machine sources.config)
    {names : Whitelist} (same : ∀ name, name ∈ names ↔ name ∈ request.names sources) :
    ∃ outcome, (request.outcome machine clock tree).result = .ok outcome ∧
      outcome.css = (Stylesheet.parse sources.css).purge names
        (sources.config.keepBanner && !request.noBanner) := by
  refine ⟨_, outcome_of_found clock consistent found staffed, ?_⟩
  apply Stylesheet.purge_same_names
  intro name
  rw [same, OrderedSet.mem_of_list]

/-- What a purge comes to, said by what it reads. -/
structure Computed (request : PurgeRequest) (sources : Sources) (outcome : Outcome) : Prop where
  whitelist : ∀ name, name ∈ outcome.whitelist ↔ name ∈ request.names sources
  order : OrderedSet.ByFirstPlace (request.names sources) outcome.whitelist.toList
  filesScanned : outcome.filesScanned = sources.pages.length
  css : outcome.css =
    (Stylesheet.parse sources.css).purge outcome.whitelist
      (sources.config.keepBanner && !request.noBanner)

theorem computed_finished (request : PurgeRequest) (clock : Clock) (sources : Sources) :
    request.Computed sources
      (request.finished clock (sources.config.merge request.overlay)
        (.ofList (request.names sources), sources.pages.length) sources.css) where
  whitelist := fun _ => OrderedSet.mem_of_list
  order := OrderedSet.of_list_by_first_place (request.names sources)
  filesScanned := rfl
  css := rfl

/-- A run that succeeds had all its sources, and its whitelist, the number of its files
and its stylesheet are what the sources make them. -/
theorem run_computes_from_sources (request : PurgeRequest) (machine : Machine) (clock : Clock)
    (tree : FileTree) (outcome : Outcome)
    (success : (request.run machine clock tree).outcome.result = .ok outcome) :
    (∃ sources, request.Found tree sources) ∧
      ∀ sources, request.Found tree sources → request.Computed sources outcome := by
  have computed := outcome_of_run success
  obtain ⟨consistent, sources, found, staffed, _⟩ := outcome_eq_ok_sources.1 computed
  refine ⟨⟨sources, found⟩, ?_⟩
  intro others foundToo
  rw [← config_of_found found foundToo] at staffed
  have again := outcome_of_found clock consistent foundToo staffed
  rw [computed, Except.ok.injEq] at again
  rw [again]
  exact computed_finished request clock others

theorem run_computes_from_sources_of_every_kind :
    let config : Text := Text.ofString
      "\x7b\"safelist\":[\"s\",\"l\"],\"content\":[\"n\"],\"exclude\":[\"x\"]\x7d"
    let css : Text := Text.ofString ".h\x7b\x7d.x\x7b\x7d.c\x7b\x7d.l\x7b\x7d"
    let markup : Text := Text.ofString "class=\"h s\""
    let tree : FileTree :=
      ⟨[['w']], [([['w']], .directory), ([['w'], Text.ofString "c.json"], .file 0),
        ([['w'], ['l']], .file 1), ([['w'], ['h']], .file 2), ([['w'], ['i']], .file 3)],
        [config, ['l', ' ', 'c'], markup, css].map Text.encode⟩
    let request : PurgeRequest :=
      { input := ⟨['i']⟩, output := ⟨['o']⟩, html := [['h']], exclude := [['y']]
        classes := [['c'], ['s']], whitelist := some ⟨['l']⟩, config := some ⟨Text.ofString "c.json"⟩
        report := none, noBanner := false, allowEmpty := false, dryRun := true
        verbose := false, jobs := none }
    let machine : Machine := .willing
    let clock : Clock := ⟨.epoch, 0⟩
    ∃ outcome, (request.run machine clock tree).outcome.result = .ok outcome ∧
      (∀ name, name ∈ outcome.whitelist ↔ name ∈ [['s'], ['l'], ['c'], ['h']]) ∧
        outcome.filesScanned = 1 ∧
        outcome.css = Text.ofString ".h\x7b\x7d\n.c\x7b\x7d\n.l\x7b\x7d\n" := by
  intro config css markup tree request machine clock
  let sources : Sources :=
    { config := ⟨[['s'], ['l']], [['n']], [['x']], true, .default⟩
      listed := .ofList [['l'], ['c']]
      pages := [(⟨['h']⟩, markup)]
      css := css }
  have expanded : Glob.expand tree ['h'] = .ok [⟨['h']⟩] := by
    have query : Glob.Query.ofPattern ['h'] = .ok ⟨⟨Path.dot⟩, [⟨[.char 'h']⟩], false⟩ :=
      to_option_eq_some.1 (by decide +kernel)
    have literal : Glob.Pattern.literal? ⟨[.char 'h']⟩ = some ['h'] := by decide +kernel
    exact Glob.expand_literal query literal (by decide) (by decide +kernel)
  have compiled : [['x'], ['y']].mapM Glob.compile = .ok [⟨[.char 'x']⟩, ⟨[.char 'y']⟩] :=
    to_option_eq_some.1 (by decide +kernel)
  have collected : (Content.collect tree [['h']] [['x'], ['y']] .default).result =
      .ok [⟨⟨['h']⟩, 11⟩] := by
    rw [Content.collect_result, Content.select, compiled]
    dsimp only
    rw [Content.selectFrom, expanded]
    apply to_option_eq_some.1
    decide +kernel
  have read : tree.readText ⟨['h']⟩ = .ok markup := to_option_eq_some.1 (by decide +kernel)
  have found : request.Found tree sources :=
    { configured := to_option_eq_some.1 (by decide +kernel)
      listed := to_option_eq_some.1 (by decide +kernel)
      selected :=
        { nothing := fun none => absurd none (by decide +kernel)
          files := fun _ => ⟨by decide, _, collected, rfl⟩
          readable := fun page member => by
            obtain rfl := List.mem_singleton.1 member
            exact read }
      stylesheet := to_option_eq_some.1 (by decide +kernel) }
  have staffed : request.Staffed machine sources.config := fun _ => rfl
  have success := outcome_of_found clock (by decide +kernel) found staffed
  obtain ⟨outcome, finished⟩ :
      ∃ outcome, (request.run machine clock tree).outcome.result = .ok outcome := by
    rw [run_result, success]
    exact ⟨_, rfl⟩
  obtain ⟨_, computes⟩ := run_computes_from_sources request machine clock tree outcome finished
  have computed := computes sources found
  have same (name : Text) : name ∈ outcome.whitelist ↔
      name ∈ OrderedSet.ofList [['s'], ['l'], ['c'], ['h']] := by
    have alike : OrderedSet.ofList (request.names sources) =
        OrderedSet.ofList [['s'], ['l'], ['c'], ['h']] := by
      decide +kernel
    rw [computed.whitelist, ← OrderedSet.mem_of_list, alike]
  refine ⟨outcome, finished, ?_, computed.filesScanned, ?_⟩
  · intro name
    rw [same, OrderedSet.mem_of_list]
  · rw [computed.css, Stylesheet.purge_same_names same]
    decide +kernel

end PurgeRequest

end StylePurge
