import ElleFrontEnd.Command.FileTree
import ElleFrontEnd.Dump.Program
import ElleFrontEnd.Format
import ElleFrontEnd.Module.Graph

/-!
# Commands

What each command prints, which exit code it ends with, and what it writes.  A command reads its file and, for the
module graph, the files of the modules imported from there; the only command that writes is the rewriting form of
`fmt`, and it writes its own file.
-/

namespace ElleFrontEnd

/-- What `fmt` does with the canonical form of a file. -/
inductive FmtMode
  | print | check | write | diff
deriving DecidableEq

/-- A command with its settings. -/
inductive Command
  /-- the tokens of a file, one a line or rendered as source -/
  | lex (file : String) (render : Bool)
  /-- the syntax tree of a file, unless only diagnostics are wanted -/
  | parse (file : String) (options : ParseOptions) (quiet : Bool)
  | fmt (file : String) (mode : FmtMode) (indent : Nat)
  /-- the module graph of a file -/
  | deps (file : String) (options : ParseOptions)
deriving DecidableEq

/-- How a command ended. -/
structure Outcome where
  exit : Nat := 0
  /-- what was printed -/
  output : String := ""
  /-- why the command failed: a line for each diagnostic, and the summary -/
  details : List String := []
  summary : Option String := none
  /-- the new text of the command's file, if it is to be rewritten -/
  rewritten : Option String := none
deriving DecidableEq

namespace Outcome

/-- A failure with nothing to show but its summary. -/
def failure (summary : String) : Outcome := { exit := 1, summary := some summary }

end Outcome

/-- A diagnostic on a line, with the place that it begins at. -/
def Diagnostic.detail (file : String) (source : String) (d : Diagnostic) : String :=
  let position := (LineIndex.ofText source.toList).position source.toList d.span.start
  s!"{file}:{position.text}: {d.message} [{d.kind.code}]"

/-- An unresolved import on a line. -/
def UnresolvedImport.detail (u : UnresolvedImport) : String :=
  s!"{u.error.message} [{u.error.code}] (imported by `{u.importer.text}`)"

namespace Command

/-- The file that a command is about. -/
def file : Command → String
  | .lex f _ | .parse f _ _ | .fmt f _ _ | .deps f _ => f

/-- The failure of a command on a file with diagnostics. -/
def refusal (file source : String) (output : String) (errors : List Diagnostic) : Outcome :=
  { exit := 1, output, details := errors.map (Diagnostic.detail file source)
    summary := some s!"{errors.length} error(s) in {file}" }

/-- A token with the position of its first character. -/
def tokenLine (t : Token) : String := s!"{t.pos.text}\t{t.kind.dump.compact}\n"

/-- The tokens of a file. -/
def runLex (file source : String) (render : Bool) : Outcome :=
  match tokenize source with
  | .error errors => refusal file source "" errors
  | .ok tokens =>
    { output := if render then renderTokens tokens ++ "\n" else String.join (tokens.map tokenLine) }

/-- The syntax tree of a file. -/
def runParse (file source : String) (o : ParseOptions) (quiet : Bool) : Outcome :=
  let parsed := parseSource source o
  let output := if quiet then "" else parsed.program.dump.pretty 0 ++ "\n"
  if parsed.diagnostics.isEmpty then { output } else refusal file source output parsed.diagnostics

/-- The canonical form of a file, printed, compared or written back. -/
def runFmt (file source : String) (mode : FmtMode) (config : LayoutConfig) : Outcome :=
  match mode with
  | .print =>
    match formatSource source config with
    | .error errors => refusal file source "" errors
    | .ok formatted => { output := formatted }
  | .check =>
    match isFormatted source config with
    | .error errors => refusal file source "" errors
    | .ok true => {}
    | .ok false => { exit := 2, summary := some s!"Would reformat: {file}" }
  | .write =>
    match formatSource source config with
    | .error errors => refusal file source "" errors
    | .ok formatted =>
      if formatted = source then {} else { output := s!"Formatted {file}\n", rewritten := some formatted }
  | .diff =>
    match formatDiff source config with
    | .error errors => refusal file source "" errors
    | .ok none => {}
    | .ok (some diff) => { output := s!"--- {file}\n" ++ diff }

/-- Loads a module from the folder of an entry file. -/
def loadFrom (view : FileView) (folder : SourcePath) (path : ModulePath) : Except LoadError String :=
  match view.read (path.fileIn folder).text with
  | .ok source => .ok source
  | .error .missing => .error (.notFound path)
  | .error e => .error (.unreadable path e.text)

/-- The module graph of a file; its root is named by the file without extension. -/
def graphOf (view : FileView) (file source stem : String) (o : ParseOptions) : ModuleGraph :=
  ModuleGraph.build (loadFrom view (SourcePath.ofText file).folder) view.count (ModulePath.ofText stem) source o

/-- The lines for what is wrong with a module graph, whose root was read from `file`. -/
def graphDetails (file : String) (g : ModuleGraph) : List String :=
  let folder := (SourcePath.ofText file).folder
  (g.modules.zipIdx.flatMap fun (m, i) =>
    m.diagnostics.map (Diagnostic.detail (if i = 0 then file else (m.path.fileIn folder).text) m.source)) ++
  g.unresolved.map UnresolvedImport.detail

/-- The module graph of a file, printed. -/
def runDeps (view : FileView) (file source : String) (o : ParseOptions) : Outcome :=
  match (SourcePath.ofText file).stem? with
  | none => .failure s!"Invalid file name '{file}'"
  | some stem =>
    let g := graphOf view file source stem o
    if g.isClean then { output := g.describe }
    else
      { exit := 1, output := g.describe, details := graphDetails file g
        summary := some s!"{g.faultCount} error(s) while loading {file}" }

/-- The failure of a command whose file has no text, or is not read. -/
def unread (file : String) (e : FileError) : Outcome :=
  .failure (match e with
    | .tooLarge size => s!"Source file '{file}' is too large ({size} bytes, max {sourceLimit} bytes)"
    | e => if e.isFound then s!"Error reading file '{file}': {e.text}" else s!"Cannot access file '{file}': {e.text}")

/-- What a command does, given what it may ask about files. -/
def outcome (c : Command) (view : FileView) : Outcome :=
  match view.read c.file with
  | .error e => unread c.file e
  | .ok source =>
    match c with
    | .lex file render => runLex file source render
    | .parse file o quiet => runParse file source o quiet
    | .fmt file mode indent => runFmt file source mode { indent }
    | .deps file o => runDeps view file source o

/-- Runs a command on a tree of files, which it may change. -/
def run (c : Command) (tree : FileTree) : Outcome × FileTree :=
  let o := c.outcome tree.view
  match o.rewritten with
  | none => (o, tree)
  | some text => (o, tree.write c.file text)

/-- The paths that a command reads, as far as `view` shows which modules are imported. -/
def reads (c : Command) (view : FileView) : List String :=
  match c, view.read c.file with
  | .deps file o, .ok source =>
    let folder := (SourcePath.ofText file).folder
    let g := graphOf view file source (((SourcePath.ofText file).stem?).getD "") o
    file :: g.modules.flatMap fun m => m.imports.map fun p => (p.fileIn folder).text
  | c, _ => [c.file]

end Command

end ElleFrontEnd
