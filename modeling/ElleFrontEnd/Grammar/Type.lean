import ElleFrontEnd.Grammar.Parser
import ElleFrontEnd.Tree.Type

/-!
# Reading types

A type is a built-in type, a name, a name with type arguments, or a pair in parentheses, followed by runs of `*` and
`[]`.  The `<` of an argument list must touch the name before it.

A `>>` may close two argument lists at once: the inner list takes the token and leaves one `>` owed, which the outer
list takes instead of a token.  `angles` counts the argument lists that are open, so that a `>>` is split only where
an outer list is there to take its second half.

Types nest to a limited depth; `room` is how many more levels are allowed.
-/

namespace ElleFrontEnd

namespace Parser

/-- The failure of a construct that would exceed the limit of nesting. -/
def tooDeep {α : Type} (limit : Nat) : Parser α := fun s =>
  (.error { cause := .tooDeep limit, span := s.peek.span }, s)

/-- Fails at the next token, because it opens no type. -/
def noType {α : Type} : Parser α := fun s =>
  (.error { cause := .noType s.peek.kind, span := s.peek.span, hints := [.typeForms] }, s)

/-- The number of owed `>`. -/
def owed : Parser Nat := look ParseState.owed

/-- Whether a pair of empty brackets comes next. -/
def atEmptyBrackets : Parser Bool :=
  look fun s => s.peek.kind = .punctuation .lBracket && s.kindAt 1 = .punctuation .rBracket

/-- The length of a run of `*`. -/
def starRun : Parser Nat :=
  grow (fun n => do if ← acceptOperator .star then pure (some (n + 1)) else pure none) 0

/-- The length of a run of `[]`. -/
def bracketRun : Parser Nat :=
  grow (fun n => do
    if ← atEmptyBrackets then
      let _ ← skip
      let _ ← skip
      pure (some (n + 1))
    else pure none) 0

/-- One run of `*` or `[]` after a type that begins at `start`.  While a `>` is owed there is none. -/
def typeSuffix (start : Nat) (t : TypeExpr) : Parser (Option TypeExpr) := do
  if 0 < (← owed) then pure none
  else if ← atOperator .star then
    let depth ← starRun
    pure (some (.pointer (← spanFrom start) t depth))
  else if ← atEmptyBrackets then
    let dims ← bracketRun
    pure (some (.array (← spanFrom start) t dims))
  else pure none

/-- Closes one argument list: takes an owed `>`, or a `>`, or the first half of a `>>`. -/
def closeAngle (angles : Nat) : Parser Unit := do
  if 0 < (← owed) then change fun s => { s with owed := s.owed - 1 }
  else if ← acceptOperator .gt then pure ()
  else if 1 < angles then
    if ← acceptOperator .shr then change fun s => { s with owed := s.owed + 1 }
    else unexpected (.operator .gt)
  else unexpected (.operator .gt)

/-- An argument list `<T, U>` inside `angles` others, with `type` as the parser of what nests in it. -/
def typeArgs (type : Nat → Parser TypeExpr) (angles : Nat) : Parser (List TypeExpr) := do
  let _ ← expectOperator .lt
  let args ← collect do
    let t ← type (angles + 1)
    if 0 < (← owed) then pure (.last t)
    else if ← acceptMark .comma then pure (.more t)
    else pure (.last t)
  closeAngle (angles + 1)
  pure args

/-- A name, with type arguments if they touch it. -/
def namedType (type : Nat → Parser TypeExpr) (angles : Nat) (start : Nat) (name : String) : Parser TypeExpr := do
  let _ ← skip
  if (← atOperator .lt) && (← isAdjacent) then
    let args ← typeArgs type angles
    pure (.generic (← spanFrom start) name args)
  else pure (.named (← spanFrom start) name)

/-- A pair of types in parentheses. -/
def tupleType (type : Nat → Parser TypeExpr) (angles : Nat) (start : Nat) : Parser TypeExpr := do
  let opened ← skip
  let first ← type angles
  if !(← acceptMark .comma) then
    fail { cause := .tupleTypeSize, span := ← spanFrom start, hints := [.tupleForm] }
  else
    let second ← type angles
    if ← atMark .comma then fail { cause := .tupleTypeSize, span := ← nextSpan }
    else
      closing .rParen opened
      pure (.tuple (← spanFrom start) first second)

/-- A type without the runs of `*` and `[]` behind it. -/
def baseType (type : Nat → Parser TypeExpr) (angles : Nat) (start : Nat) : Parser TypeExpr := do
  match ← nextKind with
  | .keyword (.primitive p) => do
    let _ ← skip
    pure (.primitive (← spanFrom start) p)
  | .ident name => namedType type angles start name
  | .punctuation .lParen => tupleType type angles start
  | _ => noType

/-- A type, with `type` as the parser of what nests in it. -/
def typeBody (type : Nat → Parser TypeExpr) (angles : Nat) : Parser TypeExpr := do
  let start ← nextStart
  let base ← baseType type angles start
  grow (typeSuffix start) base

/-- A type with at most `room` levels, inside `angles` open argument lists. -/
def typeExpr (limit : Nat) : (room : Nat) → (angles : Nat) → Parser TypeExpr
  | 0, _ => tooDeep limit
  | room + 1, angles => typeBody (typeExpr limit room) angles

/-- The names of type parameters, `<T, U>`, or none. -/
def typeParams : Parser (List String) := do
  if ← acceptOperator .lt then
    let names ← separatedBy (.punctuation .comma) identifier
    let _ ← expectOperator .gt
    pure names
  else pure []

end Parser

end ElleFrontEnd
