import StylePurge.Content.Progress

/-!
Workers that scan files side by side. A free worker takes any file that nobody has taken
yet, and scans under way end in any order. The first failure that is noted decides the
outcome, and once one is noted, files that nobody has taken may be left out. No file is
scanned if the workers cannot be started.
-/

namespace StylePurge.Content

/-- Places of files that wait, places whose scan is under way, what came of the scans
that have ended, and the first failure that was noted. -/
structure Pool where
  waiting : List Nat
  busy : List Nat
  progress : Progress
  failure : Option Error

namespace Pool

/-- Asking for no worker is as good as not asking: then there are as many as the machine
has processors, and always at least one. -/
def workers (processors : Nat) : Option Nat → Nat
  | some (fewer + 1) => fewer + 1
  | _ => max processors 1

def start (paths : List Path) : Pool := ⟨List.range paths.length, [], .start paths, none⟩

def opened (machine : Machine) (jobs : Option Nat) (paths : List Path) : Except Error Pool :=
  (startWorkers machine jobs).map fun _ => start paths

/-- What is noted when the scan of the file at a place ends. -/
def noted (tree : FileTree) (paths : List Path) (failure : Option Error) (place : Nat) :
    Option Error :=
  match failure, paths[place]?.map (fileClasses tree) with
  | some first, _ => some first
  | none, some (.error error) => some error
  | none, _ => none

inductive Step (tree : FileTree) (paths : List Path) (workers : Nat) : Pool → Pool → Prop where
  | take (pool : Pool) (place : Nat) (waits : place ∈ pool.waiting)
      (free : pool.busy.length < workers) :
      Step tree paths workers pool
        { pool with waiting := pool.waiting.erase place, busy := place :: pool.busy }
  | finish (pool : Pool) (place : Nat) (underWay : place ∈ pool.busy) :
      Step tree paths workers pool
        { pool with
          busy := pool.busy.erase place
          progress := pool.progress.finish tree paths place
          failure := noted tree paths pool.failure place }
  | leave (pool : Pool) (place : Nat) (waits : place ∈ pool.waiting)
      (failed : pool.failure ≠ none) :
      Step tree paths workers pool { pool with waiting := pool.waiting.erase place }

structure IsDone (pool : Pool) : Prop where
  noneWaits : pool.waiting = []
  noneBusy : pool.busy = []

/-- Without a failure there is no result before every scan has ended. -/
def whitelist? (pool : Pool) : Option (Except Error Whitelist) :=
  match pool.failure with
  | some error => some (.error error)
  | none => pool.progress.whitelist?

end Pool

end StylePurge.Content
