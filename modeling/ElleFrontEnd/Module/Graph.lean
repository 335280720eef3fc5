import ElleFrontEnd.Grammar.Declaration
import ElleFrontEnd.Module.Store

/-!
# Module graphs

The graph of a program holds its root module and every module reachable from it by imports, each read once, in
breadth-first order.  An import that cannot be loaded is recorded with the first module that asks for it.

The search is bounded by a budget of modules to read.  Every module but the root is one that loads, and no path is
loaded twice, so that a budget of one more than the number of paths that load is never used up.
-/

namespace ElleFrontEnd

/-- A module with what was read from its source. -/
structure LoadedModule where
  path : ModulePath
  source : String
  program : Program
  diagnostics : List Diagnostic

namespace LoadedModule

/-- Reads the source of a module. -/
def read (o : ParseOptions) (path : ModulePath) (source : String) : LoadedModule :=
  let output := parseSource source o
  { path, source, program := output.program, diagnostics := output.diagnostics }

/-- The paths that a module imports, in source order and without repeats. -/
def imports (m : LoadedModule) : List ModulePath := m.program.imports.eraseDups

end LoadedModule

/-- An import that could not be loaded. -/
structure UnresolvedImport where
  /-- the first module that imports it -/
  importer : ModulePath
  error : LoadError
deriving DecidableEq

/-- Every module reachable from a root. -/
structure ModuleGraph where
  /-- the root first, then breadth-first -/
  modules : List LoadedModule
  unresolved : List UnresolvedImport

namespace ModuleGraph

/-- The graph without modules. -/
def empty : ModuleGraph := ⟨[], []⟩

/-- The imports that load, with their sources. -/
def loadedAmong (load : ModulePath → Except LoadError String) (paths : List ModulePath) :
    List (ModulePath × String) :=
  paths.filterMap fun p =>
    match load p with
    | .ok source => some (p, source)
    | .error _ => none

/-- The imports of one module that do not load. -/
def failedAmong (load : ModulePath → Except LoadError String) (importer : ModulePath) (paths : List ModulePath) :
    List UnresolvedImport :=
  paths.filterMap fun p =>
    match load p with
    | .ok _ => none
    | .error error => some { importer, error }

/-- Reads the modules that wait in `queue` and those they lead to, at most `budget` modules in all.  The paths in
`seen` have been asked for before, and are not loaded again whether they could be loaded or not. -/
def search (load : ModulePath → Except LoadError String) (o : ParseOptions) :
    (budget : Nat) → (seen : List ModulePath) → (queue : List (ModulePath × String)) → ModuleGraph
  | 0, _, _ => empty
  | _, _, [] => empty
  | budget + 1, seen, (path, source) :: queue =>
    let m := LoadedModule.read o path source
    let fresh := m.imports.filter fun p => !seen.contains p
    let later := search load o budget (seen ++ fresh) (queue ++ loadedAmong load fresh)
    { modules := m :: later.modules, unresolved := failedAmong load path fresh ++ later.unresolved }

/-- The graph of a root module, where at most `count` other modules load. -/
def build (load : ModulePath → Except LoadError String) (count : Nat) (root : ModulePath) (source : String)
    (o : ParseOptions) : ModuleGraph :=
  search load o (count + 1) [root] [(root, source)]

/-- The graph of a root module whose imports are in a store. -/
def ofStore (store : ModuleStore) (root : ModulePath) (source : String) (o : ParseOptions) : ModuleGraph :=
  build store.load store.entries.length root source o

/-- The root module. -/
def root? (g : ModuleGraph) : Option LoadedModule := g.modules.head?

/-- The module with a path. -/
def get? (g : ModuleGraph) (path : ModulePath) : Option LoadedModule := g.modules.find? (·.path = path)

/-- The paths that a module imports, without repeats; none if it is not in the graph. -/
def importsOf (g : ModuleGraph) (path : ModulePath) : List ModulePath :=
  ((g.get? path).map LoadedModule.imports).getD []

/-- Whether every import was loaded and no module has diagnostics. -/
def isClean (g : ModuleGraph) : Bool := g.unresolved.isEmpty && g.modules.all (·.diagnostics.isEmpty)

/-- The number of diagnostics and unresolved imports. -/
def faultCount (g : ModuleGraph) : Nat :=
  (g.modules.flatMap LoadedModule.diagnostics).length + g.unresolved.length

/-- The lines for one module: its path with the number of its declarations, then each path it imports. -/
def describeModule (m : LoadedModule) : String :=
  s!"{m.path.text} ({m.program.declarations.length} declarations)\n" ++
    String.join (m.imports.map fun p => s!"  -> {p.text}\n")

/-- The graph as text. -/
def describe (g : ModuleGraph) : String := String.join (g.modules.map describeModule)

end ModuleGraph

end ElleFrontEnd
