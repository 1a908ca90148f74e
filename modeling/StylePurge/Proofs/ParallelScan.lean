import Mathlib.Data.List.Perm.Basic
import Mathlib.Logic.Relation
import StylePurge.Content.Pool
import StylePurge.Proofs.MarkupPages
import StylePurge.Proofs.PurgeSources

/-!
Scanning files side by side comes to the same as scanning them in turn. Whatever the
schedule, the result of a scan is kept at the place of its file, so when all scans have
ended the results stand in list order. The invariant of a schedule says which scans have
ended and why a failure was noted; every schedule comes to an end.
-/

namespace StylePurge.Content

variable {tree : FileTree} {paths : List Path} {order : List Nat}

namespace Progress

theorem run_concat (order : List Nat) (place : Nat) :
    run tree paths (order ++ [place]) = (run tree paths order).finish tree paths place :=
  List.foldl_append

theorem finish_listed {place : Nat} {path : Path} (listed : paths[place]? = some path)
    (progress : Progress) :
    progress.finish tree paths place =
      ⟨progress.results.set place (some (fileClasses tree path)),
        progress.announced ++ [path]⟩ := by
  rw [finish, listed]

theorem finish_unlisted {place : Nat} (unlisted : paths[place]? = none) (progress : Progress) :
    progress.finish tree paths place = progress := by
  rw [finish, unlisted]

theorem results_length (order : List Nat) :
    (run tree paths order).results.length = paths.length := by
  induction order using List.reverseRecOn with
  | nil => simp [run, start]
  | append_singleton order place induction =>
      rw [run_concat]
      cases listed : paths[place]? with
      | none => rw [finish_unlisted listed, induction]
      | some path => rw [finish_listed listed, List.length_set, induction]

/-- The place of a file holds its names as soon as its scan has ended. -/
theorem result_at (order : List Nat) {place : Nat} {path : Path}
    (listed : paths[place]? = some path) :
    (run tree paths order).results[place]? =
      some (if place ∈ order then some (fileClasses tree path) else none) := by
  have inside : place < paths.length := (List.getElem?_eq_some_iff.1 listed).1
  induction order using List.reverseRecOn with
  | nil => simp [run, start, inside]
  | append_singleton order last induction =>
      rw [run_concat]
      by_cases here : last = place
      · subst here
        rw [finish_listed listed, List.getElem?_set_self (by rw [results_length]; exact inside)]
        simp
      · have same : (place ∈ order ++ [last]) = (place ∈ order) := by
          simp [Ne.symm here]
        simp only [same]
        cases found : paths[last]? with
        | none => rw [finish_unlisted found, induction]
        | some other => rw [finish_listed found, List.getElem?_set_ne here, induction]

theorem announced_run (order : List Nat) :
    (run tree paths order).announced = order.filterMap (paths[·]?) := by
  induction order using List.reverseRecOn with
  | nil => rfl
  | append_singleton order place induction =>
      rw [run_concat, List.filterMap_append, ← induction]
      cases listed : paths[place]? with
      | none => simp [finish_unlisted listed, listed]
      | some path => simp [finish_listed listed, listed]

theorem listed_in_order (paths : List Path) :
    (List.range paths.length).filterMap (paths[·]?) = paths := by
  induction paths using List.reverseRecOn with
  | nil => rfl
  | append_singleton paths path induction =>
      have earlier : (List.range paths.length).filterMap ((paths ++ [path])[·]?) =
          (List.range paths.length).filterMap (paths[·]?) := by
        apply List.filterMap_congr
        intro place inside
        exact List.getElem?_append_left (List.mem_range.1 inside)
      rw [List.length_append, List.length_singleton, List.range_succ, List.filterMap_append,
        earlier, induction]
      simp

theorem announced_perm (all : order.Perm (List.range paths.length)) :
    (run tree paths order).announced.Perm paths := by
  have inOrder := all.filterMap (paths[·]?)
  rwa [listed_in_order, ← announced_run] at inOrder

theorem results_of_all (all : order.Perm (List.range paths.length)) :
    (run tree paths order).results = paths.map fun path => some (fileClasses tree path) := by
  apply List.ext_getElem?
  intro place
  cases listed : paths[place]? with
  | none =>
      have outside : paths.length ≤ place := List.getElem?_eq_none_iff.1 listed
      simp [results_length, outside]
  | some path =>
      have inside : place < paths.length := (List.getElem?_eq_some_iff.1 listed).1
      have scanned : place ∈ order := all.mem_iff.2 (List.mem_range.2 inside)
      simp [result_at order listed, scanned, listed]

/-- When all scans have ended, in whatever order, the outcome is that of the list. -/
theorem whitelist_of_all (all : order.Perm (List.range paths.length)) :
    (run tree paths order).whitelist? = some (whitelist tree paths).result := by
  have gathered : (paths.map fun path => some (fileClasses tree path)).mapM id =
      some (paths.map (fileClasses tree)) := by
    rw [List.mapM_map]
    exact List.mapM_pure
  rw [whitelist?, results_of_all all, gathered, whitelist_result, Option.map_some, List.mapM_map]
  rfl

end Progress

namespace Pool

variable {pool next : Pool} {crew : Nat} {processors : Nat} {jobs : Option Nat}

theorem noted_eq_none {failure : Option Error} {place : Nat} :
    noted tree paths failure place = none ↔
      failure = none ∧ ∀ error, paths[place]?.map (fileClasses tree) ≠ some (.error error) := by
  unfold noted
  split
  · simp
  · rename_i error found
    simp [found]
  · rename_i other
    exact ⟨fun _ => ⟨rfl, other⟩, fun _ => rfl⟩

theorem noted_cases {failure : Option Error} {place : Nat} {error : Error}
    (noted : noted tree paths failure place = some error) :
    failure = some error ∨ paths[place]?.map (fileClasses tree) = some (.error error) := by
  unfold Pool.noted at noted
  split at noted
  · exact .inl noted
  · rename_i found
    exact .inr (by rw [found, Option.some.inj noted])
  · exact nomatch noted

/-- The invariant of a schedule. The scans that have ended are known in their order. While
no failure is noted, every place waits, is under way or has ended without one; and what
is noted is the failure of some file. -/
structure Accounts (tree : FileTree) (paths : List Path) (pool : Pool) (order : List Nat) :
    Prop where
  progress : pool.progress = .run tree paths order
  places : pool.failure = none →
    (pool.waiting ++ (pool.busy ++ order)).Perm (List.range paths.length)
  sound : pool.failure = none → ∀ place ∈ order, ∀ error,
    paths[place]?.map (fileClasses tree) ≠ some (.error error)
  noted : ∀ error, pool.failure = some error → ∃ path ∈ paths, fileClasses tree path = .error error

theorem accounts_start (tree : FileTree) (paths : List Path) :
    Accounts tree paths (start paths) [] where
  progress := rfl
  places := fun _ => by simp [start]
  sound := fun _ => nofun
  noted := nofun

theorem accounts_step (accounts : Accounts tree paths pool order)
    (step : Step tree paths crew pool next) : ∃ order, Accounts tree paths next order := by
  obtain ⟨progress, places, sound, noted⟩ := accounts
  cases step with
  | take place waits free =>
      refine ⟨order, progress, fun unnoted => ?_, sound, noted⟩
      have moved := (List.perm_cons_erase waits).append_right (pool.busy ++ order)
      exact (List.perm_middle.trans moved.symm).trans (places unnoted)
  | finish place underWay =>
      refine ⟨order ++ [place], ?_, fun unnoted => ?_, fun unnoted => ?_, fun error found => ?_⟩
      · rw [progress, Progress.run_concat]
      · have moved : (pool.busy.erase place ++ (order ++ [place])).Perm (pool.busy ++ order) := by
          rw [← List.append_assoc]
          refine (List.perm_append_singleton place _).trans ?_
          exact (List.perm_cons_erase underWay).symm.append_right order
        exact (moved.append_left pool.waiting).trans (places (noted_eq_none.1 unnoted).1)
      · obtain ⟨before, here⟩ := noted_eq_none.1 unnoted
        intro other member
        rcases List.mem_append.1 member with old | last
        · exact sound before other old
        · rw [List.mem_singleton.1 last]
          exact here
      · rcases noted_cases found with before | here
        · exact noted error before
        · obtain ⟨path, listed, failed⟩ := Option.map_eq_some_iff.1 here
          exact ⟨path, List.mem_of_getElem? listed, failed⟩
  | leave place waits failed =>
      exact ⟨order, progress, fun unnoted => absurd unnoted failed, sound, noted⟩

/-- The states that the pool can come to from its start. -/
def Reaches (tree : FileTree) (paths : List Path) (crew : Nat) (pool : Pool) : Prop :=
  Relation.ReflTransGen (Step tree paths crew) (start paths) pool

theorem accounts_of_reaches (reached : Reaches tree paths crew pool) :
    ∃ order, Accounts tree paths pool order := by
  induction reached with
  | refl => exact ⟨[], accounts_start tree paths⟩
  | tail _ step induction =>
      obtain ⟨order, accounts⟩ := induction
      exact accounts_step accounts step

/-- Steps that are left: each place is taken once and ends once. -/
def remaining (pool : Pool) : Nat := 2 * pool.waiting.length + pool.busy.length

theorem remaining_step (step : Step tree paths crew pool next) :
    next.remaining < pool.remaining := by
  cases step with
  | take place waits free =>
      have shorter := List.length_erase_of_mem waits
      have some := List.length_pos_of_mem waits
      simp only [remaining, List.length_cons]
      omega
  | finish place underWay =>
      have shorter := List.length_erase_of_mem underWay
      have some := List.length_pos_of_mem underWay
      simp only [remaining]
      omega
  | leave place waits failed =>
      have shorter := List.length_erase_of_mem waits
      have some := List.length_pos_of_mem waits
      simp only [remaining]
      omega

theorem workers_pos (processors : Nat) (jobs : Option Nat) : 0 < workers processors jobs := by
  unfold workers
  split
  · omega
  · omega

/-- A pool that is not done can go on, whatever it did before. -/
theorem step_of_not_done (someone : 0 < crew) (undone : ¬pool.IsDone) :
    ∃ next, Step tree paths crew pool next := by
  cases busy : pool.busy with
  | cons place others =>
      exact ⟨_, .finish pool place (by rw [busy]; exact List.mem_cons_self)⟩
  | nil =>
      cases waiting : pool.waiting with
      | nil => exact absurd ⟨waiting, busy⟩ undone
      | cons place others =>
          refine ⟨_, .take pool place ?_ ?_⟩
          · rw [waiting]
            exact List.mem_cons_self
          · rw [busy]
            exact someone

theorem order_of_done (accounts : Accounts tree paths pool order) (done : pool.IsDone)
    (unnoted : pool.failure = none) : order.Perm (List.range paths.length) := by
  have places := accounts.places unnoted
  rwa [done.noneWaits, done.noneBusy] at places

theorem noted_of_failure {path : Path} {error : Error}
    (accounts : Accounts tree paths pool order) (done : pool.IsDone) (member : path ∈ paths)
    (failed : fileClasses tree path = .error error) : pool.failure ≠ none := by
  intro unnoted
  obtain ⟨place, listed⟩ := List.mem_iff_getElem?.1 member
  have inside : place < paths.length := (List.getElem?_eq_some_iff.1 listed).1
  have ended : place ∈ order :=
    (order_of_done accounts done unnoted).mem_iff.2 (List.mem_range.2 inside)
  exact accounts.sound unnoted place ended error (by rw [listed, Option.map_some, failed])

theorem whitelist_of_unnoted (accounts : Accounts tree paths pool order) (done : pool.IsDone)
    (unnoted : pool.failure = none) :
    pool.whitelist? = some (whitelist tree paths).result ∧
      pool.progress.announced.Perm paths := by
  have all := order_of_done accounts done unnoted
  rw [whitelist?, unnoted, accounts.progress]
  exact ⟨Progress.whitelist_of_all all, Progress.announced_perm all⟩

end Pool

theorem file_classes_eq_error {path : Path} {error : Error} :
    fileClasses tree path = .error error ↔
      ∃ fault, tree.readText path = .error fault ∧ error = .unreadable path fault := by
  unfold fileClasses
  cases tree.readText path with
  | error fault => simp [eq_comm]
  | ok markup => simp

theorem names_of_pages (pages : List (Path × Text)) :
    OrderedSet.ofList (namesOf pages) =
      (pages.map Prod.snd).foldl Whitelist.addMarkup .empty := by
  induction pages using List.reverseRecOn with
  | nil => rfl
  | append_singleton pages page induction =>
      have step : (pages.map Prod.snd ++ [page.2]).foldl Whitelist.addMarkup .empty =
          ((pages.map Prod.snd).foldl Whitelist.addMarkup .empty).addMarkup page.2 :=
        List.foldl_append
      rw [List.map_append, List.map_singleton, step, ← induction, namesOf, List.flatMap_append,
        List.flatMap_singleton, OrderedSet.of_list_append]
      rfl

theorem whitelist_of_pages {pages : List (Path × Text)} (same : pages.map Prod.fst = paths)
    (readable : ∀ page ∈ pages, tree.readText page.1 = .ok page.2) :
    (whitelist tree paths).result =
      .ok ((pages.map Prod.snd).foldl Whitelist.addMarkup .empty) := by
  apply whitelist_eq_ok.2
  exact ⟨pages, same, readable, (names_of_pages pages).symm⟩

theorem file_classes_of_pages {pages : List (Path × Text)} (same : pages.map Prod.fst = paths)
    (readable : ∀ page ∈ pages, tree.readText page.1 = .ok page.2) {path : Path}
    (member : path ∈ paths) : ∃ names, fileClasses tree path = .ok names := by
  rw [← same, List.mem_map] at member
  obtain ⟨page, listed, rfl⟩ := member
  exact ⟨_, file_classes_eq_ok.2 ⟨page.2, readable page listed, rfl⟩⟩

/-- The outcome names a file of the list that cannot be read. -/
def Refuses (tree : FileTree) (paths : List Path) (result : Except Error Whitelist) : Prop :=
  ∃ path ∈ paths, ∃ fault, tree.readText path = .error fault ∧
    result = .error (.unreadable path fault)

theorem refuses_of_file_classes {path : Path} {error : Error} (member : path ∈ paths)
    (failed : fileClasses tree path = .error error) : Refuses tree paths (.error error) := by
  obtain ⟨fault, unread, rfl⟩ := file_classes_eq_error.1 failed
  exact ⟨path, member, fault, unread, rfl⟩

theorem whitelist_refuses {path : Path} {fault : Fault} (member : path ∈ paths)
    (unread : tree.readText path = .error fault) :
    Refuses tree paths (whitelist tree paths).result := by
  have failed : fileClasses tree path = .error (.unreadable path fault) :=
    file_classes_eq_error.2 ⟨fault, unread, rfl⟩
  rw [whitelist_result]
  cases all : paths.mapM (fileClasses tree) with
  | error error =>
      obtain ⟨first, listed, here⟩ := map_m_eq_error all
      exact refuses_of_file_classes listed here
  | ok perFile =>
      obtain ⟨names, read⟩ := of_map_m all path member
      rw [failed] at read
      exact nomatch read

/-- Only workers that were asked for can be refused. -/
theorem no_workers_of_start {machine : Machine} {jobs : Option Nat} {error : Error}
    (refused : startWorkers machine jobs = .error error) :
    ∃ count reason, jobs = some count ∧ error = .noWorkers count reason := by
  cases jobs with
  | none => exact absurd refused (by simp [startWorkers])
  | some count =>
      cases asked : machine.workersRefusal? count with
      | none => exact absurd refused (by simp [startWorkers, asked])
      | some reason =>
          refine ⟨count, reason, rfl, ?_⟩
          simpa [startWorkers, asked, eq_comm] using refused

/-- Files are scanned just when the workers can be started. -/
theorem scan_files_of_opened (machine : Machine) (jobs : Option Nat) (tree : FileTree)
    (paths : List Path) :
    (∀ pool, Pool.opened machine jobs paths = .ok pool → pool = .start paths ∧
        (scanFiles machine jobs tree paths).result = (whitelist tree paths).result) ∧
      ∀ error, Pool.opened machine jobs paths = .error error →
        (scanFiles machine jobs tree paths).result = .error error ∧
          ∃ count reason, jobs = some count ∧ error = .noWorkers count reason := by
  have staged : (scanFiles machine jobs tree paths).result =
      (startWorkers machine jobs).bind fun _ => (whitelist tree paths).result := by
    rw [scanFiles, Logged.result_bind, Logged.result_of_except]
  rw [staged, Pool.opened]
  cases started : startWorkers machine jobs with
  | ok _ =>
      refine ⟨fun pool same => ⟨(Except.ok.inj same).symm, rfl⟩, fun error same => ?_⟩
      exact absurd same (by simp [Except.map])
  | error cause =>
      refine ⟨fun pool same => absurd same (by simp [Except.map]), fun error same => ?_⟩
      have cause : cause = error := Except.error.inj same
      rw [← cause]
      exact ⟨rfl, no_workers_of_start started⟩

/-- Workers that scan files side by side always come to an end, and then the outcome is
that of scanning in turn: names in list order when all files can be read, each of them
announced once, and otherwise the failure of a file. If they cannot be started, that is the
outcome. -/
theorem scanned_side_by_side (tree : FileTree) (paths : List Path) (processors : Nat)
    (jobs : Option Nat) :
    let crew := Pool.workers processors jobs
    (∀ pool, ¬pool.IsDone → ∃ next, Pool.Step tree paths crew pool next) ∧
      (∀ pool next, Pool.Step tree paths crew pool next → next.remaining < pool.remaining) ∧
      (∀ pages : List (Path × Text), pages.map Prod.fst = paths →
        (∀ page ∈ pages, tree.readText page.1 = .ok page.2) →
          ∃ names : Whitelist,
            names = (pages.map Prod.snd).foldl Whitelist.addMarkup .empty ∧
              names = Markup.classes (Text.joinWith ['\n'] (pages.map Prod.snd)) ∧
              (whitelist tree paths).result = .ok names ∧
              ∀ pool, Pool.Reaches tree paths crew pool → pool.IsDone →
                pool.whitelist? = some (.ok names) ∧ pool.progress.announced.Perm paths) ∧
      (∀ path ∈ paths, ∀ fault, tree.readText path = .error fault →
        Refuses tree paths (whitelist tree paths).result ∧
          ∀ pool, Pool.Reaches tree paths crew pool → pool.IsDone →
            ∃ result, pool.whitelist? = some result ∧ Refuses tree paths result) ∧
      ∀ machine,
        (∀ pool, Pool.opened machine jobs paths = .ok pool → pool = .start paths ∧
          (scanFiles machine jobs tree paths).result = (whitelist tree paths).result) ∧
        ∀ error, Pool.opened machine jobs paths = .error error →
          (scanFiles machine jobs tree paths).result = .error error ∧
            ∃ count reason, jobs = some count ∧ error = .noWorkers count reason := by
  intro crew
  refine ⟨fun pool undone => Pool.step_of_not_done (Pool.workers_pos processors jobs) undone,
    fun pool next step => Pool.remaining_step step, ?_, ?_,
    fun machine => scan_files_of_opened machine jobs tree paths⟩
  · intro pages same readable
    have inTurn := whitelist_of_pages same readable
    refine ⟨_, rfl, Whitelist.add_pages_eq_classes _, inTurn, ?_⟩
    intro pool reached done
    obtain ⟨order, accounts⟩ := Pool.accounts_of_reaches reached
    have unnoted : pool.failure = none := by
      cases found : pool.failure with
      | none => rfl
      | some error =>
          obtain ⟨path, member, failed⟩ := accounts.noted error found
          obtain ⟨names, read⟩ := file_classes_of_pages same readable member
          rw [failed] at read
          exact nomatch read
    rw [← inTurn]
    exact Pool.whitelist_of_unnoted accounts done unnoted
  · intro path member fault unread
    refine ⟨whitelist_refuses member unread, ?_⟩
    intro pool reached done
    obtain ⟨order, accounts⟩ := Pool.accounts_of_reaches reached
    have failed := file_classes_eq_error.2 ⟨fault, unread, rfl⟩
    obtain ⟨error, found⟩ :=
      Option.ne_none_iff_exists'.1 (Pool.noted_of_failure accounts done member failed)
    obtain ⟨first, listed, here⟩ := accounts.noted error found
    refine ⟨.error error, ?_, refuses_of_file_classes listed here⟩
    rw [Pool.whitelist?, found]

theorem scanned_side_by_side_last_first :
    let tree : FileTree :=
      ⟨[], [([['p']], .file 0), ([['q']], .file 1)],
        [Text.encode (Text.ofString "class=\"b a\""), Text.encode (Text.ofString "class=\"a c\"")]⟩
    let paths : List Path := [⟨['p']⟩, ⟨['q']⟩]
    let order := [1, 0]
    let pool : Pool := ⟨[], [], .run tree paths order, none⟩
    Pool.Reaches tree paths (Pool.workers 1 (some 2)) pool ∧ pool.IsDone ∧
      pool.progress.announced = [⟨['q']⟩, ⟨['p']⟩] ∧
        ∃ names : Whitelist, names.toList = [['b'], ['a'], ['c']] ∧
          (whitelist tree paths).result = .ok names ∧ pool.whitelist? = some (.ok names) := by
  intro tree paths order pool
  let pages : List (Path × Text) :=
    [(⟨['p']⟩, Text.ofString "class=\"b a\""), (⟨['q']⟩, Text.ofString "class=\"a c\"")]
  have readable : ∀ page ∈ pages, tree.readText page.1 = .ok page.2 := by
    intro page member
    rcases List.mem_cons.1 member with rfl | later
    · exact to_option_eq_some.1 (by decide +kernel)
    · obtain rfl := List.mem_singleton.1 later
      exact to_option_eq_some.1 (by decide +kernel)
  have reached : Pool.Reaches tree paths (Pool.workers 1 (some 2)) pool := by
    have unnoted (place : Nat) : Pool.noted tree paths none place = none := by
      apply Pool.noted_eq_none.2
      refine ⟨rfl, fun error failed => ?_⟩
      obtain ⟨path, listed, refused⟩ := Option.map_eq_some_iff.1 failed
      have member : path ∈ paths := List.mem_of_getElem? listed
      obtain ⟨names, read⟩ : ∃ names, fileClasses tree path = .ok names :=
        file_classes_of_pages rfl readable member
      rw [refused] at read
      exact nomatch read
    have both : Pool.Step tree paths 2 ⟨[1], [0], .start paths, none⟩
        ⟨[], [1, 0], .start paths, none⟩ :=
      .take _ 1 (by decide) (by decide)
    have last : Pool.Step tree paths 2 ⟨[], [1, 0], .start paths, none⟩
        ⟨[], [0], .run tree paths [1], Pool.noted tree paths none 1⟩ :=
      .finish _ 1 (by decide)
    have first : Pool.Step tree paths 2 ⟨[], [0], .run tree paths [1], none⟩
        ⟨[], [], .run tree paths order, Pool.noted tree paths none 0⟩ :=
      .finish _ 0 (by decide)
    rw [unnoted] at last first
    have taken : Pool.Step tree paths 2 (Pool.start paths) ⟨[1], [0], .start paths, none⟩ :=
      .take _ 0 (by decide) (by decide)
    exact (((Relation.ReflTransGen.single taken).tail both).tail last).tail first
  have done : pool.IsDone := ⟨rfl, rfl⟩
  obtain ⟨_, _, success, _⟩ := scanned_side_by_side tree paths 1 (some 2)
  obtain ⟨names, fold, _, inTurn, sideBySide⟩ := success pages rfl readable
  refine ⟨reached, done, rfl, names, ?_, inTurn, (sideBySide pool reached done).1⟩
  rw [fold]
  decide +kernel

end StylePurge.Content
