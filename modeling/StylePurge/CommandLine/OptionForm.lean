import StylePurge.CommandLine.Usage
import StylePurge.Text.Decimal

/-!
The options of each command: their short and long names, how many words they
take and what those words may be.
-/

namespace StylePurge.CommandLine

inductive CommandName where
  | purge
  | classes
  | pipe
  deriving DecidableEq, Repr

inductive OptionName where
  | input
  | output
  | html
  | exclude
  | className
  | whitelist
  | config
  | report
  | noBanner
  | allowEmpty
  | dryRun
  | verbose
  | jobs
  | json
  | help
  deriving DecidableEq, Repr

/-- How many words an option takes each time it is given. Options that take
more than one word may be given more than once. -/
inductive Arity where
  | flag
  | one
  | oneOrMore
  | zeroOrMore
  deriving DecidableEq, Repr

inductive WordKind where
  | anyText
  | path
  | count
  deriving DecidableEq, Repr

structure OptionForm where
  name : OptionName
  short : Option Char
  long : Text
  arity : Arity
  words : WordKind
  required : Bool
  deriving DecidableEq, Repr

namespace Arity

def takesWords (arity : Arity) : Bool := arity != .flag

def needsWord : Arity → Bool
  | one | oneOrMore => true
  | flag | zeroOrMore => false

def isRepeatable : Arity → Bool
  | oneOrMore | zeroOrMore => true
  | flag | one => false

end Arity

/-- A count may carry a plus sign and leading zeros. -/
def count? : Text → Option Nat
  | '+' :: digits => (Text.toNat? 10 digits).bind Text.word?
  | digits => (Text.toNat? 10 digits).bind Text.word?

def WordKind.objection? (kind : WordKind) (word : Text) : Option UsageFault :=
  match kind with
  | .anyText => none
  | .path => if word.isEmpty then some .unusableWord else none
  | .count => if (count? word).isSome then none else some .notACount

namespace OptionForm

def input : OptionForm :=
  ⟨.input, some 'i', ['i', 'n', 'p', 'u', 't'], .one, .path, true⟩

def output : OptionForm :=
  ⟨.output, some 'o', ['o', 'u', 't', 'p', 'u', 't'], .one, .path, true⟩

def html : OptionForm := ⟨.html, none, ['h', 't', 'm', 'l'], .oneOrMore, .anyText, false⟩

/-- Without a stylesheet there is nothing to do but look into markup. -/
def neededHtml : OptionForm := { html with required := true }

def exclude : OptionForm :=
  ⟨.exclude, some 'e', ['e', 'x', 'c', 'l', 'u', 'd', 'e'], .zeroOrMore, .anyText, false⟩

def className : OptionForm :=
  ⟨.className, some 'k', ['c', 'l', 'a', 's', 's'], .oneOrMore, .anyText, false⟩

def whitelist : OptionForm :=
  ⟨.whitelist, some 'w', ['w', 'h', 'i', 't', 'e', 'l', 'i', 's', 't'], .one, .path, false⟩

def config : OptionForm :=
  ⟨.config, some 'c', ['c', 'o', 'n', 'f', 'i', 'g'], .one, .path, false⟩

def report : OptionForm :=
  ⟨.report, some 'r', ['r', 'e', 'p', 'o', 'r', 't'], .one, .path, false⟩

def noBanner : OptionForm :=
  ⟨.noBanner, none, ['n', 'o', '-', 'b', 'a', 'n', 'n', 'e', 'r'], .flag, .anyText, false⟩

def allowEmpty : OptionForm :=
  ⟨.allowEmpty, none, ['a', 'l', 'l', 'o', 'w', '-', 'e', 'm', 'p', 't', 'y'], .flag, .anyText,
    false⟩

def dryRun : OptionForm :=
  ⟨.dryRun, none, ['d', 'r', 'y', '-', 'r', 'u', 'n'], .flag, .anyText, false⟩

def verbose : OptionForm :=
  ⟨.verbose, some 'v', ['v', 'e', 'r', 'b', 'o', 's', 'e'], .flag, .anyText, false⟩

def jobs : OptionForm := ⟨.jobs, some 'j', ['j', 'o', 'b', 's'], .one, .count, false⟩

def json : OptionForm := ⟨.json, none, ['j', 's', 'o', 'n'], .flag, .anyText, false⟩

def help : OptionForm := ⟨.help, some 'h', ['h', 'e', 'l', 'p'], .flag, .anyText, false⟩

end OptionForm

namespace CommandName

open OptionForm in
def options : CommandName → List OptionForm
  | purge =>
      [input, output, html, exclude, className, whitelist, config, report, noBanner, allowEmpty,
        dryRun, verbose, jobs, help]
  | classes => [neededHtml, exclude, json, verbose, jobs, help]
  | pipe => [className, whitelist, noBanner, help]

def word : CommandName → Text
  | purge => ['p', 'u', 'r', 'g', 'e']
  | classes => ['c', 'l', 'a', 's', 's', 'e', 's']
  | pipe => ['p', 'i', 'p', 'e']

def ofWord? (word : Text) : Option CommandName :=
  [purge, classes, pipe].find? fun name => name.word = word

theorem of_word_word (name : CommandName) : ofWord? name.word = some name := by
  cases name <;> decide

end CommandName

end StylePurge.CommandLine
