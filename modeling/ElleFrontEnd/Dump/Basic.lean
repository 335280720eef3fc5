/-!
# Dumps

A dump shows a value with the names of its parts: `Name { part: value }`, `Name(value)`, `[value]`, or a bare word.
It is written on one line, or with every part on a line of its own and four spaces for each level.
-/

namespace ElleFrontEnd

/-- A value to be shown. -/
inductive Dump
  | atom (text : String)
  | record (name : String) (parts : List (String × Dump))
  | tuple (name : String) (items : List Dump)
  | list (items : List Dump)

namespace Dump

/-- A number. -/
def nat (n : Nat) : Dump := .atom (toString n)

/-- A truth value. -/
def bool (b : Bool) : Dump := .atom (if b then "true" else "false")

/-- A value that may be absent. -/
def option : Option Dump → Dump
  | none => .atom "None"
  | some d => .tuple "Some" [d]

mutual

/-- A dump on one line. -/
def compact : Dump → String
  | .atom text => text
  | .record name [] => name
  | .record name parts => name ++ " \x7b " ++ ", ".intercalate (compactParts parts) ++ " \x7d"
  | .tuple name items => name ++ "(" ++ ", ".intercalate (compactItems items) ++ ")"
  | .list items => "[" ++ ", ".intercalate (compactItems items) ++ "]"

/-- Each of several dumps on one line. -/
def compactItems : List Dump → List String
  | [] => []
  | d :: ds => d.compact :: compactItems ds

/-- Each part of a record on one line. -/
def compactParts : List (String × Dump) → List String
  | [] => []
  | (name, d) :: parts => (name ++ ": " ++ d.compact) :: compactParts parts

end

/-- The spaces before a line at some level. -/
def margin (level : Nat) : String := String.ofList (List.replicate (4 * level) ' ')

mutual

/-- A dump over several lines, of which the first follows text at `level`. -/
def pretty (level : Nat) : Dump → String
  | .atom text => text
  | .record name [] => name
  | .record name parts => name ++ " \x7b\n" ++ prettyParts (level + 1) parts ++ margin level ++ "\x7d"
  | .tuple name [] => name ++ "()"
  | .tuple name items => name ++ "(\n" ++ prettyItems (level + 1) items ++ margin level ++ ")"
  | .list [] => "[]"
  | .list items => "[\n" ++ prettyItems (level + 1) items ++ margin level ++ "]"

/-- Several dumps, each with a comma on lines of its own. -/
def prettyItems (level : Nat) : List Dump → String
  | [] => ""
  | d :: ds => margin level ++ d.pretty level ++ ",\n" ++ prettyItems level ds

/-- The parts of a record, each with a comma on lines of its own. -/
def prettyParts (level : Nat) : List (String × Dump) → String
  | [] => ""
  | (name, d) :: parts => margin level ++ name ++ ": " ++ d.pretty level ++ ",\n" ++ prettyParts level parts

end

mutual

/-- Whether two dumps are the same. -/
def same : Dump → Dump → Bool
  | .atom a, .atom b => a == b
  | .record a parts, .record b parts' => a == b && sameParts parts parts'
  | .tuple a items, .tuple b items' => a == b && sameItems items items'
  | .list items, .list items' => sameItems items items'
  | _, _ => false

/-- Whether two lists of dumps are the same. -/
def sameItems : List Dump → List Dump → Bool
  | [], [] => true
  | d :: ds, e :: es => d.same e && sameItems ds es
  | _, _ => false

/-- Whether two lists of parts are the same. -/
def sameParts : List (String × Dump) → List (String × Dump) → Bool
  | [], [] => true
  | (a, d) :: ds, (b, e) :: es => a == b && d.same e && sameParts ds es
  | _, _ => false

end

end Dump

end ElleFrontEnd
