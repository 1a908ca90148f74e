import StylePurge.CommandLine.OptionForm

/-!
The options that a command line gives, read word by word. The option read last
stays open, since words that follow may still belong to it; it is settled when
the next option comes or the line ends.
-/

namespace StylePurge.CommandLine

structure Occurrence where
  form : OptionForm
  words : List Text
  deriving DecidableEq, Repr

/-- What the words read so far amount to. Behind a lone double dash, `ended` is
set and no word has a place any more. -/
structure Reading where
  settled : List Occurrence
  pending : Option Occurrence
  ended : Bool
  deriving DecidableEq, Repr

namespace Occurrence

def isOpen (occurrence : Occurrence) : Bool :=
  occurrence.form.arity.isRepeatable || occurrence.words.isEmpty

def objection? (settled : List Occurrence) (occurrence : Occurrence) : Option UsageFault :=
  if occurrence.form.arity.needsWord && occurrence.words.isEmpty then some .unusableWord
  else if !occurrence.form.arity.isRepeatable &&
      settled.any (fun other => other.form.name = occurrence.form.name) then
    some .repeatedOption
  else occurrence.words.findSome? occurrence.form.words.objection?

/-- Adds an option to those settled. Being asked for help ends the reading. -/
def settle (settled : List Occurrence) (occurrence : Occurrence) :
    Except UsageFault (List Occurrence) :=
  if occurrence.form.name = .help then .error .helpWanted
  else
    match occurrence.objection? settled with
    | some fault => .error fault
    | none => .ok (settled ++ [occurrence])

end Occurrence

namespace Reading

def start : Reading := ⟨[], none, false⟩

def finish (reading : Reading) : Except UsageFault (List Occurrence) :=
  match reading.pending with
  | none => .ok reading.settled
  | some occurrence => occurrence.settle reading.settled

def addComplete (reading : Reading) (occurrence : Occurrence) : Except UsageFault Reading := do
  let settled ← reading.finish
  return { reading with settled := ← occurrence.settle settled, pending := none }

def openOption (reading : Reading) (form : OptionForm) : Except UsageFault Reading := do
  let settled ← reading.finish
  return { reading with settled := settled, pending := some ⟨form, []⟩ }

/-- An option with its word attached is complete. -/
def addOption (reading : Reading) (form : OptionForm) :
    Option Text → Except UsageFault Reading
  | some word => reading.addComplete ⟨form, [word]⟩
  | none => reading.openOption form

def addWord (reading : Reading) (word : Text) : Except UsageFault Reading :=
  match reading.pending with
  | some occurrence =>
      if occurrence.isOpen then
        .ok { reading with pending := some { occurrence with words := occurrence.words ++ [word] } }
      else .error .unknownArgument
  | none => .error .unknownArgument

def behindEquals? : Text → Option Text
  | '=' :: word => some word
  | _ => none

def addLong (forms : List OptionForm) (reading : Reading) (body : Text) :
    Except UsageFault Reading :=
  let attached := behindEquals? (body.dropWhile (· != '='))
  match forms.find? fun form => form.long = body.takeWhile (· != '=') with
  | none => .error .unknownArgument
  | some form =>
      if form.arity.takesWords then reading.addOption form attached
      else if attached.isSome then .error .surplusWord
      else reading.addComplete ⟨form, []⟩

/-- Reads short names that share one dash. The first that takes a word takes
what is left, with or without an equals sign in front. -/
def addShort (forms : List OptionForm) : Reading → Text → Except UsageFault Reading
  | reading, [] => .ok reading
  | reading, letter :: rest =>
      match forms.find? fun form => form.short = some letter with
      | none => .error .unknownArgument
      | some form =>
          if form.arity.takesWords then
            reading.addOption form
              (if rest.isEmpty then none else some ((behindEquals? rest).getD rest))
          else
            match reading.addComplete ⟨form, []⟩ with
            | .error fault => .error fault
            | .ok reading => addShort forms reading rest

def step (forms : List OptionForm) (reading : Reading) (word : Text) :
    Except UsageFault Reading :=
  if reading.ended then .error .unknownArgument
  else
    match word with
    | ['-', '-'] => .ok { reading with ended := true }
    | '-' :: '-' :: body => reading.addLong forms body
    | '-' :: letter :: letters => reading.addShort forms (letter :: letters)
    | _ => reading.addWord word

end Reading

/-- The options among the words, none of the required ones missing. -/
def occurrences (forms : List OptionForm) (words : List Text) :
    Except UsageFault (List Occurrence) := do
  let given ← (← words.foldlM (Reading.step forms) Reading.start).finish
  if forms.all fun form => !form.required || given.any fun one => one.form.name = form.name then
    return given
  else .error .missingOption

end StylePurge.CommandLine
