import ElleFrontEnd.Module.File

/-!
# Files

What a command sees of the files around it.  A `FileTree` is a finite set of files, each named by the folders on the
way to it from the root of all folders, and by its own name there; a folder is there because it is listed, or because
something is in it.  A `FileView` is all that a command may ask: the text of a file by its path, as far as there is
one.
-/

namespace ElleFrontEnd

/-- Why a file has no text. -/
inductive FileError
  /-- there is no such file -/
  | missing
  /-- the path leads through a file -/
  | notFolder
  | folder
  /-- the path, or a name in it, has more bytes than paths and names may have -/
  | tooLong
  /-- the path contains the character that ends paths -/
  | endsEarly
  /-- the file has more bytes than a source may have -/
  | tooLarge (size : Nat)
  /-- the bytes of the file are not UTF-8 -/
  | notText
  | other (reason : String)
deriving DecidableEq

/-- The most bytes that a source may have; a larger file is not read. -/
def sourceLimit : Nat := 100 * 1024 * 1024

namespace FileError

/-- The wording of a file error. -/
def text : FileError → String
  | .missing => "No such file or directory (os error 2)"
  | .notFolder => "Not a directory (os error 20)"
  | .folder => "Is a directory (os error 21)"
  | .tooLong => "File name too long (os error 36)"
  | .endsEarly => "file name contained an unexpected NUL byte"
  | .tooLarge size => s!"file is too large ({size} bytes, max {sourceLimit} bytes)"
  | .notText => "stream did not contain valid UTF-8"
  | .other reason => reason

/-- Whether the path led to something that could not be read. -/
def isFound : FileError → Bool
  | .folder | .notText => true
  | .missing | .notFolder | .tooLong | .endsEarly | .tooLarge _ | .other _ => false

end FileError

/-- What a command may ask about files. -/
structure FileView where
  /-- the text of the file at a path -/
  read : String → Except FileError String
  /-- how many files there are to read -/
  count : Nat

/-- What a file holds: a text, or bytes that are none. -/
inductive FileContent
  | text (text : String)
  | bytes (bytes : List UInt8)
deriving DecidableEq

/-- The number of bytes in a file. -/
def FileContent.size : FileContent → Nat
  | .text t => t.utf8ByteSize
  | .bytes bs => bs.length

/-- The text in a file, if it may be read. -/
def FileContent.read (content : FileContent) : Except FileError String :=
  if sourceLimit < content.size then .error (.tooLarge content.size)
  else
    match content with
    | .text t => .ok t
    | .bytes _ => .error .notText

/-- Files by their names, and where a command works among them. -/
structure FileTree where
  /-- the working folder, which relative paths start from -/
  home : List String
  /-- folders that are there even with nothing in them -/
  folders : List (List String) := []
  files : List (List String × FileContent)
deriving DecidableEq

namespace FileTree

/-- The most bytes that a name may have. -/
def nameLimit : Nat := 255

/-- The most bytes that a path may have. -/
def pathLimit : Nat := 4095

/-- The content of a file. -/
def content? (tree : FileTree) (name : List String) : Option FileContent := tree.files.lookup name

/-- Whether a name is that of a folder: the working folder, a listed one, or one on the way to these or to a file. -/
def isFolder (tree : FileTree) (name : List String) : Bool :=
  (tree.home :: tree.folders).any name.isPrefixOf || tree.files.any fun f => name.isPrefixOf f.1 && f.1 ≠ name

/-- Walks from the folder or file `name` along the pieces of a path.  The way out of the root leads back to it. -/
def walk (tree : FileTree) (name : List String) : List String → Except FileError (List String)
  | [] => .ok name
  | piece :: pieces =>
    if !tree.isFolder name then .error (if (tree.content? name).isSome then .notFolder else .missing)
    else if SourcePath.isIdle piece then walk tree name pieces
    else if piece = ".." then walk tree name.dropLast pieces
    else if nameLimit < piece.utf8ByteSize then .error .tooLong
    else walk tree (name ++ [piece]) pieces

/-- The name that a path leads to. -/
def locate (tree : FileTree) (path : String) : Except FileError (List String) :=
  let p := SourcePath.ofText path
  if path.toList.contains '\x00' then .error .endsEarly
  else if pathLimit < path.utf8ByteSize then .error .tooLong
  else tree.walk (if p.isAbsolute then [] else tree.home) p.pieces

/-- The text of the file at a path. -/
def read (tree : FileTree) (path : String) : Except FileError String :=
  match tree.locate path with
  | .error e => .error e
  | .ok name =>
    match tree.content? name with
    | some content => content.read
    | none => .error (if tree.isFolder name then .folder else .missing)

/-- What a command may ask about the tree. -/
def view (tree : FileTree) : FileView := ⟨tree.read, tree.files.length⟩

/-- The tree in which the file at a path holds another text.  Where the path leads to no file, nothing changes. -/
def write (tree : FileTree) (path text : String) : FileTree :=
  match tree.locate path with
  | .error _ => tree
  | .ok name => { tree with files := tree.files.map fun f => if f.1 = name then (f.1, .text text) else f }

end FileTree

end ElleFrontEnd
