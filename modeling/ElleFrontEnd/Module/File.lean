import ElleFrontEnd.Tree.Declaration

/-!
# Files of modules

The file of a module lies under the folder of the entry file: each segment of the module path is a name below the
one before, and the last takes the extension of source files.

A path is kept as the pieces of its text between slashes, so that its text is never changed but where a name is
added or an extension set.  An absolute path has an empty first piece.  Empty pieces and `.` name nothing, except for
the first piece, which says where the path begins.
-/

namespace ElleFrontEnd

/-- The extension of source files. -/
def sourceExtension : String := "le"

/-- The path of a file, cut at its slashes. -/
structure SourcePath where
  pieces : List String
deriving DecidableEq

namespace SourcePath

/-- The pieces of a text. -/
def ofText (text : String) : SourcePath := ⟨text.splitToList (· = '/')⟩

/-- The path as text. -/
def text (p : SourcePath) : String := "/".intercalate p.pieces

/-- The folder that relative paths start from. -/
def here : SourcePath := ⟨["."]⟩

/-- Whether a piece that is not the first one names nothing. -/
def isIdle (piece : String) : Bool := piece = "" || piece = "."

/-- Whether a path begins at the root of all folders. -/
def isAbsolute (p : SourcePath) : Bool :=
  match p.pieces with
  | "" :: _ :: _ => true
  | _ => false

/-- The pieces up to the last one that counts; the first one always does. -/
def significant : List String → List String
  | [] => []
  | first :: others => first :: (others.reverse.dropWhile isIdle).reverse

/-- The name at the end of a path, or `..`, with the pieces before it. -/
def last? (p : SourcePath) : Option (List String × String) :=
  match (significant p.pieces).reverse with
  | [] => none
  | [first] => if isIdle first then none else some ([], first)
  | last :: before => some (before.reverse, last)

/-- The folder of a file. -/
def folder (p : SourcePath) : SourcePath :=
  match p.last? with
  | none => here
  | some (before, _) =>
    match significant before with
    | [] => here
    | [""] => ⟨["", ""]⟩
    | pieces => ⟨pieces⟩

/-- A path continued by another, which replaces it if it is absolute.  A slash is added unless the path ends in
one. -/
def push (p : SourcePath) (name : String) : SourcePath :=
  let next := ofText name
  if next.isAbsolute then next
  else
    match p.pieces.getLast? with
    | none | some "" => ⟨p.pieces.dropLast ++ next.pieces⟩
    | some _ => ⟨p.pieces ++ next.pieces⟩

/-- A name without its extension: what precedes the last dot, unless nothing does. -/
def stemOf (name : String) : String :=
  match name.toList.reverse.dropWhile (· ≠ '.') with
  | [] | [_] => name
  | _ :: before => String.ofList before.reverse

/-- The name of the file without its extension. -/
def stem? (p : SourcePath) : Option String :=
  match p.last? with
  | some (_, "..") | none => none
  | some (_, name) => some (stemOf name)

/-- The path with the extension of its file name set; a path without a file name stays as it is. -/
def withExtension (p : SourcePath) (extension : String) : SourcePath :=
  match p.last? with
  | some (_, "..") | none => p
  | some (before, name) => ⟨before ++ [stemOf name ++ "." ++ extension]⟩

end SourcePath

/-- The file of a module below a folder. -/
def ModulePath.fileIn (folder : SourcePath) (path : ModulePath) : SourcePath :=
  (path.segments.foldl SourcePath.push folder).withExtension sourceExtension

end ElleFrontEnd
