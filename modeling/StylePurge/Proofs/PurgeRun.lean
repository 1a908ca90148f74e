import StylePurge.Delivery
import StylePurge.Proofs.Stages

/-!
A purge run in stages. All stages that can fail come before anything is written, so
the tree changes only when there is an outcome to write, and the only failure with a
changed tree is that a file could not be written. A dry run goes through the same
stages and stops there.
-/

namespace StylePurge

namespace Delivery

/-- Writing files fails only with the path that could not be written. -/
theorem write_files_error {machine : Machine} {tree : FileTree} {files : List (Path × Text)}
    {error : Error} (failed : (writeFiles machine tree files).1 = .error error) :
    ∃ path fault, error = .notWritten path fault := by
  induction files generalizing tree with
  | nil => exact nomatch failed
  | cons file files induction =>
      obtain ⟨path, content⟩ := file
      rw [writeFiles] at failed
      split at failed
      · rename_i written _
        exact induction failed
      · rename_i fault left _
        exact ⟨path, fault, (Except.error.inj failed).symm⟩

end Delivery

namespace PurgeRequest

variable {request : PurgeRequest} {machine : Machine} {clock : Clock} {tree : FileTree}
variable {outcome : Outcome}

/-- What a run comes to once the settings, the names with the number of files they
come from, and the stylesheet are at hand. -/
def finished (request : PurgeRequest) (clock : Clock) (config : Config)
    (names : Whitelist × Nat) (css : Text) : Outcome :=
  let sheet := Stylesheet.parse css
  let output := sheet.purge names.1 config.keepBanner
  ⟨output, request.reportOn clock sheet names.1 css output, names.1, names.2⟩

theorem outcome_result (request : PurgeRequest) (machine : Machine) (clock : Clock)
    (tree : FileTree) :
    (request.outcome machine clock tree).result =
      match request.inconsistency? with
      | some cause => .error (.inconsistent cause)
      | none => do
          let config ← request.settings tree
          let names ← (request.gatherWhitelist machine tree config).result
          let css ← request.readInput tree
          return request.finished clock config names css := by
  unfold outcome
  cases request.inconsistency? with
  | some cause => rfl
  | none =>
      simp only [Logged.result_bind, Logged.result_of_except, Logged.result_report,
        Logged.result_pure]
      rfl

theorem outcome_eq_ok :
    (request.outcome machine clock tree).result = .ok outcome ↔
      request.inconsistency? = none ∧
        ∃ config names css, request.settings tree = .ok config ∧
          (request.gatherWhitelist machine tree config).result = .ok names ∧
          request.readInput tree = .ok css ∧
          request.finished clock config names css = outcome := by
  rw [outcome_result]
  cases request.inconsistency? with
  | some cause => simp
  | none =>
      simp only [bind_eq_ok, true_and, pure, Except.pure, Except.ok.injEq]
      constructor
      · rintro ⟨config, settled, names, gathered, css, read, same⟩
        exact ⟨config, names, css, settled, gathered, read, same⟩
      · rintro ⟨config, names, css, settled, gathered, read, same⟩
        exact ⟨config, settled, names, gathered, css, read, same⟩

theorem run_tree (request : PurgeRequest) (machine : Machine) (clock : Clock)
    (tree : FileTree) :
    (request.run machine clock tree).tree =
      match (request.outcome machine clock tree).result with
      | .error _ => tree
      | .ok outcome =>
          if request.dryRun then tree
          else (Delivery.writeFiles machine tree (request.files outcome)).2 := by
  unfold run
  dsimp only
  cases (request.outcome machine clock tree).result with
  | error error => rfl
  | ok outcome =>
      dsimp only
      split
      · rfl
      · generalize Delivery.writeFiles machine tree (request.files outcome) = attempt
        obtain ⟨result, left⟩ := attempt
        cases result with
        | error error => rfl
        | ok _ => rfl

theorem run_result (request : PurgeRequest) (machine : Machine) (clock : Clock)
    (tree : FileTree) :
    (request.run machine clock tree).outcome.result =
      match (request.outcome machine clock tree).result with
      | .error error => .error error
      | .ok outcome =>
          if request.dryRun then .ok outcome
          else
            (Delivery.writeFiles machine tree (request.files outcome)).1.map fun _ => outcome := by
  unfold run
  dsimp only
  cases computed : (request.outcome machine clock tree).result with
  | error error => exact computed
  | ok outcome =>
      dsimp only
      split
      · rfl
      · generalize Delivery.writeFiles machine tree (request.files outcome) = attempt
        obtain ⟨result, left⟩ := attempt
        cases result with
        | error error => rfl
        | ok _ => exact computed

theorem outcome_of_run {outcome : Outcome}
    (success : (request.run machine clock tree).outcome.result = .ok outcome) :
    (request.outcome machine clock tree).result = .ok outcome := by
  rw [run_result] at success
  cases computed : (request.outcome machine clock tree).result with
  | error error =>
      rw [computed] at success
      exact nomatch success
  | ok found =>
      simp only [computed] at success
      split at success
      · exact success
      · cases written : (Delivery.writeFiles machine tree (request.files found)).1 with
        | error error =>
            rw [written] at success
            exact nomatch success
        | ok _ =>
            rw [written] at success
            exact success

/-- An outcome as it would have come about at another time. -/
def timed (outcome : Outcome) (clock : Clock) : Outcome :=
  { outcome with
    report :=
      { outcome.report with
        metadata := { outcome.report.metadata with generatedAt := clock.now }
        statistics :=
          { outcome.report.statistics with processingMillis := some clock.elapsedMillis } } }

/-- Time shows in nothing but the times of the report. -/
theorem outcome_timed (later : Clock)
    (success : (request.outcome machine clock tree).result = .ok outcome) :
    (request.outcome machine later tree).result = .ok (timed outcome later) := by
  obtain ⟨consistent, config, names, css, settled, gathered, read, rfl⟩ := outcome_eq_ok.1 success
  exact outcome_eq_ok.2 ⟨consistent, config, names, css, settled, gathered, read, rfl⟩

/-- Whether anything is to be written does not matter to what is computed. -/
theorem outcome_dry_run (request : PurgeRequest) (dryRun : Bool) (machine : Machine)
    (clock : Clock) (tree : FileTree) :
    { request with dryRun := dryRun }.outcome machine clock tree =
      request.outcome machine clock tree := rfl

/-- A run comes to this stylesheet, unless it is to write a file and cannot. -/
def Yields (request : PurgeRequest) (machine : Machine) (clock : Clock) (tree : FileTree)
    (text : Text) : Prop :=
  match (request.run machine clock tree).outcome.result with
  | .ok outcome => outcome.css = text
  | .error error => request.dryRun = false ∧ ∃ path fault, error = .notWritten path fault

theorem yields_of_outcome
    (computed : (request.outcome machine clock tree).result = .ok outcome) :
    request.Yields machine clock tree outcome.css := by
  rw [Yields, run_result, computed]
  dsimp only
  by_cases dry : request.dryRun = true
  · rw [if_pos dry]
  · rw [if_neg dry]
    cases written : (Delivery.writeFiles machine tree (request.files outcome)).1 with
    | ok _ => rfl
    | error error =>
        obtain ⟨path, fault, rfl⟩ := Delivery.write_files_error written
        exact ⟨by simpa using dry, path, fault, rfl⟩

theorem tree_of_dry_run (dry : request.dryRun = true) :
    (request.run machine clock tree).tree = tree := by
  rw [run_tree, dry]
  split
  · rfl
  · rfl

/-- Whatever fails before the first file leaves nothing behind. -/
theorem tree_of_failure {error : Error}
    (failed : (request.run machine clock tree).outcome.result = .error error)
    (otherwise : ∀ path fault, error ≠ .notWritten path fault) :
    (request.run machine clock tree).tree = tree := by
  rw [run_result] at failed
  rw [run_tree]
  cases computed : (request.outcome machine clock tree).result with
  | error cause => rfl
  | ok outcome =>
      simp only [computed] at failed ⊢
      by_cases dry : request.dryRun = true
      · rw [if_pos dry]
      · -- Now only writing can have failed, which is ruled out.
        rw [if_neg dry] at failed
        cases written : (Delivery.writeFiles machine tree (request.files outcome)).1 with
        | ok _ => simp [written, Except.map] at failed
        | error cause =>
            obtain ⟨path, fault, rfl⟩ := Delivery.write_files_error written
            rw [written] at failed
            exact absurd (Except.error.inj failed).symm (otherwise path fault)

theorem dry_run_of_run (later : Clock)
    (success :
      ({ request with dryRun := false }.run machine clock tree).outcome.result = .ok outcome) :
    ({ request with dryRun := true }.run machine later tree).outcome.result =
      .ok (timed outcome later) := by
  have computed := outcome_of_run success
  rw [outcome_dry_run] at computed
  rw [run_result, outcome_dry_run, outcome_timed later computed]
  simp

/-- A dry run leaves the tree alone, and so does a run that fails otherwise than in
writing a file. A dry run succeeds whenever the same run with output does, with the
same outcome but for the times of the report. -/
theorem untouched_without_output (request : PurgeRequest) (machine : Machine)
    (tree : FileTree) :
    (∀ clock, request.dryRun = true → (request.run machine clock tree).tree = tree) ∧
      (∀ clock error, (request.run machine clock tree).outcome.result = .error error →
        (∀ path fault, error ≠ .notWritten path fault) →
          (request.run machine clock tree).tree = tree) ∧
      ∀ clock later outcome,
        ({ request with dryRun := false }.run machine clock tree).outcome.result = .ok outcome →
          ({ request with dryRun := true }.run machine later tree).outcome.result =
            .ok (timed outcome later) := by
  refine ⟨?_, ?_, ?_⟩
  · intro clock dry
    exact tree_of_dry_run dry
  · intro clock error failed otherwise
    exact tree_of_failure failed otherwise
  · intro clock later outcome success
    exact dry_run_of_run later success

theorem untouched_without_output_input_missing :
    let tree : FileTree :=
      ⟨[['w']], [([['w']], .directory), ([['w'], ['i']], .file 0)], [Text.encode ['p', '{', '}']]⟩
    let request : PurgeRequest :=
      { input := ⟨['i']⟩, output := ⟨['o']⟩, html := [], exclude := [], classes := []
        whitelist := none, config := none, report := some ⟨['r']⟩, noBanner := false
        allowEmpty := true, dryRun := false, verbose := false, jobs := none }
    let machine : Machine := .willing
    let clock : Clock := ⟨.epoch, 0⟩
    ({ request with dryRun := true }.run machine clock tree).tree = tree ∧
      ({ request with input := ⟨['j']⟩ }.run machine clock tree).tree = tree ∧
      ∃ outcome,
        ({ request with dryRun := false }.run machine clock tree).outcome.result = .ok outcome ∧
          ({ request with dryRun := true }.run machine clock tree).outcome.result =
            .ok (timed outcome clock) := by
  intro tree request machine clock
  have missing : ({ request with input := ⟨['j']⟩ }.outcome machine clock tree).result =
      .error (.inputNotFound ⟨['j']⟩) := by
    rw [outcome_result]
    rfl
  have failed : ({ request with input := ⟨['j']⟩ }.run machine clock tree).outcome.result =
      .error (.inputNotFound ⟨['j']⟩) := by
    rw [run_result, missing]
  have success : ({ request with dryRun := false }.run machine clock
      tree).outcome.result.toOption.isSome = true := by
    decide +kernel
  obtain ⟨dry, _, _⟩ := untouched_without_output { request with dryRun := true } machine tree
  obtain ⟨_, kept, _⟩ := untouched_without_output { request with input := ⟨['j']⟩ } machine tree
  obtain ⟨_, _, alike⟩ := untouched_without_output request machine tree
  obtain ⟨outcome, found⟩ := Option.isSome_iff_exists.1 success
  have computed := to_option_eq_some.1 found
  exact ⟨dry clock rfl, kept clock _ failed nofun, outcome, computed,
    alike clock clock outcome computed⟩

end PurgeRequest

end StylePurge
