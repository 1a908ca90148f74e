import StylePurge.Config
import StylePurge.Error

/-!
What a run is asked to do: purge a stylesheet file, list the class names that
markup uses, or purge text on the way through. A request is checked for
consistency before anything is read.
-/

namespace StylePurge

structure PurgeRequest where
  input : Path
  output : Path
  html : List Text
  exclude : List Text
  classes : List Text
  whitelist : Option Path
  config : Option Path
  report : Option Path
  noBanner : Bool
  allowEmpty : Bool
  dryRun : Bool
  verbose : Bool
  jobs : Option Nat
  deriving DecidableEq, Repr

structure ClassesRequest where
  html : List Text
  exclude : List Text
  asJson : Bool
  verbose : Bool
  jobs : Option Nat
  deriving DecidableEq, Repr

structure PipeRequest where
  classes : List Text
  whitelist : Option Path
  noBanner : Bool
  deriving DecidableEq, Repr

inductive Request where
  | purge (request : PurgeRequest)
  | classes (request : ClassesRequest)
  | pipe (request : PipeRequest)
  deriving DecidableEq, Repr

namespace PurgeRequest

def hasSource (request : PurgeRequest) : Bool :=
  !request.html.isEmpty || !request.classes.isEmpty || request.whitelist.isSome ||
    request.config.isSome

def reportIsStylesheet (request : PurgeRequest) : Bool :=
  match request.report with
  | some report => report.same request.output || report.same request.input
  | none => false

/-- The first thing that does not fit together. Paths are compared as they are
written, so two spellings of one file pass. -/
def inconsistency? (request : PurgeRequest) : Option Inconsistency :=
  if request.input.same request.output then some .outputIsInput
  else if request.reportIsStylesheet then some .reportIsStylesheet
  else if request.jobs = some 0 then some .noJobs
  else if !request.hasSource && !request.allowEmpty then some .noSource
  else none

def overlay (request : PurgeRequest) : Config :=
  { Config.default with
    safelist := request.classes
    content := request.html
    exclude := request.exclude
    keepBanner := !request.noBanner }

end PurgeRequest

def ClassesRequest.inconsistency? (request : ClassesRequest) : Option Inconsistency :=
  if request.jobs = some 0 then some .noJobs else none

end StylePurge
