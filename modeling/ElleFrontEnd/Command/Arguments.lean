import ElleFrontEnd.Command.Basic
import ElleFrontEnd.Literal.Number

/-!
# Command lines

A command line names a command, and then gives a file, options with a value, and flags, in any order.  Behind `--`
everything is a file.  An option takes its value from behind `=` or from the next argument, and short flags may be
joined behind one dash.

Arguments are read from left to right, and the first fault counts.  A value waits until the argument behind it has
been recognized, so that a fault in the value of an option comes after a fault in the name of what follows it.
-/

namespace ElleFrontEnd

/-- Why a command line names no command to run. -/
inductive UsageError
  | helpWanted
  | versionWanted
  /-- nothing was given -/
  | noArguments
  | missingFile
  | unknownArgument
  /-- flags that exclude each other, or one that is given twice -/
  | conflict
  | unknownCommand
  /-- an option or a file without a value -/
  | noValue
  /-- a value that is no number -/
  | badValue
  /-- a value for a flag -/
  | tooManyValues
deriving DecidableEq

namespace UsageError

/-- The wording of a usage error. -/
def message : UsageError → String
  | .helpWanted => "help was asked for"
  | .versionWanted => "the version was asked for"
  | .noArguments => "no command is given"
  | .missingFile => "the command needs a file"
  | .unknownArgument => "there is an argument that the command does not know"
  | .conflict => "there are flags that exclude each other, or one that is given twice"
  | .unknownCommand => "there is no such command"
  | .noValue => "a value is missing"
  | .badValue => "a value is not a number"
  | .tooManyValues => "a flag takes no value"

/-- Asking for help or for the version is no failure. -/
def exit : UsageError → Nat
  | .helpWanted | .versionWanted => 0
  | _ => 2

end UsageError

/-- The name of a command. -/
inductive Verb
  | lex | parse | fmt | deps
deriving DecidableEq

namespace Verb

/-- All commands. -/
def all : List Verb := [.lex, .parse, .fmt, .deps]

/-- The word for a command. -/
def spelling : Verb → String
  | .lex => "lex"
  | .parse => "parse"
  | .fmt => "fmt"
  | .deps => "deps"

/-- The command with a name. -/
def ofSpelling? (word : String) : Option Verb := all.find? (·.spelling == word)

end Verb

/-- A flag of some command. -/
inductive Flag
  | render | noRecover | quiet | check | write | diff
deriving DecidableEq

/-- An option with a number for its value. -/
inductive NumberOption
  | maxDepth | indent
deriving DecidableEq

/-- What an argument that begins with a dash can stand for. -/
inductive Switch
  | flag (flag : Flag)
  | option (option : NumberOption)
  | help
deriving DecidableEq

namespace Verb

/-- The long names that a command knows. -/
def longNames : Verb → List (String × Switch)
  | .lex => [("render", .flag .render), ("help", .help)]
  | .parse =>
    [("max-depth", .option .maxDepth), ("no-recover", .flag .noRecover), ("quiet", .flag .quiet), ("help", .help)]
  | .fmt =>
    [("check", .flag .check), ("write", .flag .write), ("diff", .flag .diff), ("indent", .option .indent),
     ("help", .help)]
  | .deps => [("max-depth", .option .maxDepth), ("help", .help)]

/-- The short names that a command knows; none of them takes a value. -/
def shortNames : Verb → List (Char × Switch)
  | .parse => [('q', .flag .quiet), ('h', .help)]
  | .fmt => [('w', .flag .write), ('h', .help)]
  | .lex | .deps => [('h', .help)]

end Verb

/-- A value that waits for the argument behind it. -/
inductive Waiting
  | nothing
  | option (option : NumberOption) (value : Option String)
  | file (path : String)
deriving DecidableEq

/-- What has been read of a command line. -/
structure Arguments where
  flags : List Flag := []
  numbers : List (NumberOption × Nat) := []
  file : Option String := none
  waiting : Waiting := .nothing
  /-- whether a file has been given -/
  hasFile : Bool := false
  /-- whether `--` has been passed -/
  filesOnly : Bool := false

namespace Arguments

/-- Whether the option that was named last still lacks its value. -/
def wantsValue (a : Arguments) : Option NumberOption :=
  match a.waiting with
  | .option o none => some o
  | _ => none

/-- Takes over the value that waits. -/
def settle (a : Arguments) : Except UsageError Arguments :=
  match a.waiting with
  | .nothing => .ok a
  | .file path => if path.isEmpty then .error .noValue else .ok { a with file := some path, waiting := .nothing }
  | .option _ none => .error .noValue
  | .option o (some value) =>
    if a.numbers.any (·.1 = o) then .error .conflict
    else
      match readNatBelow? UInt64.size 10 value.toList with
      | none => .error .badValue
      | some n => .ok { a with numbers := a.numbers ++ [(o, n)], waiting := .nothing }

/-- Takes a flag. -/
def addFlag (a : Arguments) (f : Flag) : Except UsageError Arguments := do
  let a ← a.settle
  if a.flags.contains f then .error .conflict else .ok { a with flags := a.flags ++ [f] }

/-- Takes a request for help. -/
def addHelp (a : Arguments) : Except UsageError Arguments := do
  let _ ← a.settle
  .error .helpWanted

/-- Takes an option, with the value behind `=` if there is one. -/
def addOption (a : Arguments) (o : NumberOption) (value : Option String) : Except UsageError Arguments := do
  let a ← a.settle
  match value with
  | none => .ok { a with waiting := .option o none }
  | some _ => settle { a with waiting := .option o value }

/-- Takes a file. -/
def addFile (a : Arguments) (path : String) : Except UsageError Arguments := do
  if a.hasFile then .error .unknownArgument
  else
    let a ← a.settle
    .ok { a with waiting := .file path, hasFile := true }

/-- Takes an argument that begins with two dashes, given what follows them. -/
def addLong (verb : Verb) (a : Arguments) (text : List Char) : Except UsageError Arguments :=
  let name := String.ofList (text.takeWhile (· ≠ '='))
  let value := match text.dropWhile (· ≠ '=') with
    | _ :: v => some (String.ofList v)
    | [] => none
  match verb.longNames.lookup name, value with
  | some (.option o), value => a.addOption o value
  | some (.flag f), none => a.addFlag f
  | some .help, none => a.addHelp
  | some _, some _ => .error .tooManyValues
  | none, _ => .error .unknownArgument

/-- Takes the short names behind a dash. -/
def addShort (verb : Verb) (a : Arguments) : List Char → Except UsageError Arguments
  | [] => .ok a
  | c :: cs =>
    match verb.shortNames.lookup c with
    | some (.flag f) => do addShort verb (← a.addFlag f) cs
    | some .help => a.addHelp
    | some (.option _) | none => .error .unknownArgument

/-- Takes one argument. -/
def add (verb : Verb) (a : Arguments) (argument : String) : Except UsageError Arguments :=
  if a.filesOnly then a.addFile argument
  else
    match argument.toList with
    | ['-', '-'] => .ok { a with filesOnly := true }
    | '-' :: '-' :: text => a.addLong verb text
    | '-' :: c :: cs => a.addShort verb (c :: cs)
    | _ =>
      match a.wantsValue with
      | some o => .ok { a with waiting := .option o (some argument) }
      | none => a.addFile argument

/-- The value of an option. -/
def number (a : Arguments) (o : NumberOption) (default : Nat) : Nat := (a.numbers.lookup o).getD default

/-- Whether a flag was given. -/
def has (a : Arguments) (f : Flag) : Bool := a.flags.contains f

/-- The modes of `fmt` that were asked for. -/
def modes (a : Arguments) : List FmtMode :=
  (if a.has .check then [.check] else []) ++ (if a.has .write then [.write] else []) ++
    (if a.has .diff then [.diff] else [])

/-- The options of a parse. -/
def parseOptions (a : Arguments) : ParseOptions :=
  { maxDepth := a.number .maxDepth ({} : ParseOptions).maxDepth, recover := !a.has .noRecover }

/-- The command that arguments ask for, once all have been taken. -/
def command (verb : Verb) (a : Arguments) : Except UsageError Command := do
  let a ← a.settle
  if 1 < a.modes.length then .error .conflict
  else
    match a.file with
    | none => .error .missingFile
    | some file =>
      match verb with
      | .lex => .ok (.lex file (a.has .render))
      | .parse => .ok (.parse file a.parseOptions (a.has .quiet))
      | .fmt => .ok (.fmt file (a.modes.headD .print) (a.number .indent ({} : LayoutConfig).indent))
      | .deps => .ok (.deps file a.parseOptions)

end Arguments

namespace Command

/-- The command of a verb with its arguments. -/
def ofArguments (verb : Verb) (arguments : List String) : Except UsageError Command := do
  (← arguments.foldlM (Arguments.add verb) {}).command verb

/-- What `help` ends with, given the words behind it: help on the program, or on one command. -/
def helpOn : List String → UsageError
  | [] => .helpWanted
  | [word] => if word = "help" || (Verb.ofSpelling? word).isSome then .helpWanted else .unknownCommand
  | _ => .unknownCommand

/-- The short requests before a command, given what follows a dash. -/
def leadingShort : List Char → UsageError
  | 'h' :: _ => .helpWanted
  | 'V' :: _ => .versionWanted
  | _ => .unknownArgument

/-- The long requests before a command, given what follows two dashes. -/
def leadingLong (text : List Char) : UsageError :=
  let name := String.ofList (text.takeWhile (· ≠ '='))
  let known : Option UsageError := if name = "help" then some .helpWanted
    else if name = "version" then some .versionWanted else none
  match known with
  | none => .unknownArgument
  | some wanted => if text.contains '=' then .tooManyValues else wanted

/-- The command of a command line. -/
def ofCommandLine : List String → Except UsageError Command
  | [] => .error .noArguments
  | first :: others =>
    match Verb.ofSpelling? first with
    | some verb => ofArguments verb others
    | none =>
      if first = "help" then .error (helpOn others)
      else
        match first.toList, others with
        | ['-', '-'], [] => .error .noArguments
        | ['-', '-'], word :: _ =>
          .error (if word = "help" || (Verb.ofSpelling? word).isSome then .unknownArgument else .unknownCommand)
        | '-' :: '-' :: text, _ => .error (leadingLong text)
        | '-' :: c :: cs, _ => .error (leadingShort (c :: cs))
        | _, _ => .error .unknownCommand

end Command

end ElleFrontEnd
