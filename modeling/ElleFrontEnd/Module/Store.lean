import ElleFrontEnd.Tree.Declaration

/-!
# Stores of modules

A program names the modules it imports by path.  A store says for finitely many paths what a module holds or why it
cannot be read; any other path is not found.
-/

namespace ElleFrontEnd

/-- Why a module could not be loaded. -/
inductive LoadError
  | notFound (path : ModulePath)
  /-- there is such a module, and reading it failed -/
  | unreadable (path : ModulePath) (reason : String)
deriving DecidableEq

namespace LoadError

/-- The path that could not be loaded. -/
def path : LoadError → ModulePath
  | .notFound p | .unreadable p _ => p

/-- The wording of a load error. -/
def message : LoadError → String
  | .notFound p => s!"module `{p.text}` not found"
  | .unreadable p reason => s!"cannot read module `{p.text}`: {reason}"

/-- The stable code of a load error. -/
def code : LoadError → String
  | .notFound _ => "elle::load::not_found"
  | .unreadable _ _ => "elle::load::io"

/-- Advice on a load error. -/
def help? : LoadError → Option String
  | .notFound _ => some "check the `use` path"
  | .unreadable _ _ => none

end LoadError

/-- What a store holds under a path. -/
inductive StoredModule
  | source (text : String)
  /-- a module that cannot be read -/
  | failing (reason : String)
deriving DecidableEq

/-- Modules by the text of their paths; of two entries for one path the first counts. -/
structure ModuleStore where
  entries : List (String × StoredModule)

namespace ModuleStore

/-- The source of a module. -/
def load (store : ModuleStore) (path : ModulePath) : Except LoadError String :=
  match store.entries.lookup path.text with
  | some (.source text) => .ok text
  | some (.failing reason) => .error (.unreadable path reason)
  | none => .error (.notFound path)

end ModuleStore

end ElleFrontEnd
