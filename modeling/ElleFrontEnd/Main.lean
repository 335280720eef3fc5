import ElleFrontEnd.Command.Arguments

/-!
# The command line

The program itself: it reads the files that a command wants, runs the command on them, and passes on what came of it.
-/

namespace ElleFrontEnd

/-- The version of the program. -/
def version : String := "0.1.0-alpha.1"

/-- The usage lines. -/
def usage : String :=
  "Usage: elle <COMMAND>\n\n" ++
  "  lex [--render] <FILE>\n" ++
  "  parse [--max-depth N] [--no-recover] [-q|--quiet] <FILE>\n" ++
  "  fmt [--check | -w|--write | --diff] [--indent N] <FILE>\n" ++
  "  deps [--max-depth N] <FILE>\n"

/-- Files that have been read, each by the path it was asked for. -/
abbrev Readings := List (String × Except FileError String)

/-- What may be asked about files that have been read; any other file counts as missing. -/
def Readings.view (readings : Readings) : FileView :=
  { read := fun path => (readings.lookup path).getD (.error .missing), count := readings.length }

/-- Why a file could not be read.  A path through a file is refused by its name, a folder only once it is open. -/
def fileErrorOf : IO.Error → FileError
  | .noFileOrDirectory _ _ _ => .missing
  | .inappropriateType (some _) _ _ => .notFolder
  | .inappropriateType none _ _ => .folder
  | .invalidArgument _ _ "name too long" => .tooLong
  | e => .other (toString e)

/-- Reads the file at a path. -/
def readText (path : String) : IO (Except FileError String) := do
  try
    let bytes ← IO.FS.readBinFile path
    match String.fromUTF8? bytes with
    | some text => return (FileContent.text text).read
    | none => return (FileContent.bytes bytes.toList).read
  catch e => return .error (fileErrorOf e)

/-- Reads what a command wants, until it wants nothing more. -/
partial def gather (c : Command) (readings : Readings) : IO Readings := do
  match (c.reads readings.view).find? fun path => (readings.lookup path).isNone with
  | none => return readings
  | some path => gather c (readings ++ [(path, ← readText path)])

/-- Runs a command and passes on its outcome. -/
def execute (c : Command) : IO UInt32 := do
  let outcome := c.outcome (← gather c []).view
  IO.print outcome.output
  if let some text := outcome.rewritten then IO.FS.writeFile c.file text
  for line in outcome.details do IO.eprintln line
  if let some line := outcome.summary then IO.eprintln line
  return outcome.exit.toUInt32

end ElleFrontEnd

open ElleFrontEnd in
/-- Runs the command that the command line names. -/
def main (arguments : List String) : IO UInt32 := do
  match Command.ofCommandLine arguments with
  | .ok c => execute c
  | .error .versionWanted => do
    IO.println ("elle " ++ version)
    return 0
  | .error e => do
    if e.exit = 0 then IO.print usage else IO.eprint (e.message ++ "\n\n" ++ usage)
    return e.exit.toUInt32
