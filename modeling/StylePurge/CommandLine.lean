import StylePurge.CommandLine.Occurrence
import StylePurge.Request

/-!
The request that a command line makes. The first word names the command and the
other words are its options, in any order.
-/

namespace StylePurge.CommandLine

def wordsOf (given : List Occurrence) (name : OptionName) : List Text :=
  (given.filter fun occurrence => occurrence.form.name = name).flatMap Occurrence.words

def isGiven (given : List Occurrence) (name : OptionName) : Bool :=
  given.any fun occurrence => occurrence.form.name = name

def pathOf? (given : List Occurrence) (name : OptionName) : Option Path :=
  (wordsOf given name).head?.map Path.mk

def jobsOf? (given : List Occurrence) : Option Nat := (wordsOf given .jobs).head?.bind count?

def purgeRequest? (given : List Occurrence) : Option PurgeRequest := do
  return {
    input := ← pathOf? given .input
    output := ← pathOf? given .output
    html := wordsOf given .html
    exclude := wordsOf given .exclude
    classes := wordsOf given .className
    whitelist := pathOf? given .whitelist
    config := pathOf? given .config
    report := pathOf? given .report
    noBanner := isGiven given .noBanner
    allowEmpty := isGiven given .allowEmpty
    dryRun := isGiven given .dryRun
    verbose := isGiven given .verbose
    jobs := jobsOf? given }

def classesRequest (given : List Occurrence) : ClassesRequest :=
  { html := wordsOf given .html
    exclude := wordsOf given .exclude
    asJson := isGiven given .json
    verbose := isGiven given .verbose
    jobs := jobsOf? given }

def pipeRequest (given : List Occurrence) : PipeRequest :=
  { classes := wordsOf given .className
    whitelist := pathOf? given .whitelist
    noBanner := isGiven given .noBanner }

def CommandName.request (name : CommandName) (words : List Text) : Except UsageFault Request := do
  let given ← occurrences name.options words
  match name with
  | .purge =>
      match purgeRequest? given with
      | some request => return .purge request
      | none => .error .missingOption
  | .classes => return .classes (classesRequest given)
  | .pipe => return .pipe (pipeRequest given)

def helpWord : Text := ['h', 'e', 'l', 'p']

def versionWord : Text := ['v', 'e', 'r', 's', 'i', 'o', 'n']

def isCommandWord (word : Text) : Bool :=
  (CommandName.ofWord? word).isSome || word = helpWord

/-- What a long option in place of a command asks for. -/
def leadingLong (body : Text) : UsageFault :=
  let name := body.takeWhile (· != '=')
  if name = helpWord || name = versionWord then
    if name.length < body.length then .surplusWord
    else if name = helpWord then .helpWanted
    else .versionWanted
  else .unknownArgument

def leadingShort : Char → UsageFault
  | 'h' => .helpWanted
  | 'V' => .versionWanted
  | _ => .unknownArgument

def helpOn : List Text → UsageFault
  | [] => .helpWanted
  | [word] => if isCommandWord word then .helpWanted else .unknownCommand
  | _ => .unknownCommand

/-- A double dash does not go well with a command, which is no plain word. -/
def behindDashes : List Text → UsageFault
  | [] => .noCommand
  | word :: _ => if isCommandWord word then .unknownArgument else .unknownCommand

def read : List Text → Except UsageFault Request
  | [] => .error .noCommand
  | word :: words =>
      match word with
      | ['-', '-'] => .error (behindDashes words)
      | '-' :: '-' :: body => .error (leadingLong body)
      | '-' :: letter :: _ => .error (leadingShort letter)
      | _ =>
          match CommandName.ofWord? word with
          | some name => name.request words
          | none => .error (if word = helpWord then helpOn words else .unknownCommand)

end StylePurge.CommandLine
