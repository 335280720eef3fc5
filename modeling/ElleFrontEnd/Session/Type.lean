import ElleFrontEnd.Session.Basic

/-!
# Types in a session

The methods that read types, in the way of the parsers of `Grammar.Type`.  How many argument lists are open is kept in a
register: a list counts while its arguments and the `>` behind them are read.
-/

namespace ElleFrontEnd

namespace Parser

/-- The arguments of a list behind its `<`, up to the `>` that closes it; the list counts among the open ones. -/
def typeArgList (type : Nat → Parser TypeExpr) (angles : Nat) : Parser (List TypeExpr) := do
  let args ← collect do
    let t ← type angles
    if 0 < (← owed) then pure (.last t)
    else if ← acceptMark .comma then pure (.more t)
    else pure (.last t)
  closeAngle angles
  pure args

end Parser

namespace Session

open Method (register withHeader underAngle)
open ElleFrontEnd.Parser hiding grow collect commaList attempt outcome onError

/-- Closes one argument list: takes an owed `>`, or a `>`, or, inside another list, the first half of a `>>`. -/
def closeAngle : Method Unit := do
  Parser.closeAngle (← register Registers.angles)

/-- The arguments of a list behind its `<`, up to the `>` that closes it. -/
def typeArgList (type : Method TypeExpr) : Method (List TypeExpr) := do
  let args ← Method.collect do
    let t ← type
    if 0 < (← owed) then pure (.last t)
    else if ← acceptMark .comma then pure (.more t)
    else pure (.last t)
  closeAngle
  pure args

/-- An argument list `<T, U>`, with `type` as the method for what nests in it. -/
def typeArgs (type : Method TypeExpr) : Method (List TypeExpr) := do
  let _ ← expectOperator .lt
  underAngle (typeArgList type)

/-- A name, with type arguments if they touch it. -/
def namedType (type : Method TypeExpr) (start : Nat) (name : String) : Method TypeExpr := do
  let _ ← skip
  if (← atOperator .lt) && (← isAdjacent) then
    let args ← typeArgs type
    pure (.generic (← spanFrom start) name args)
  else pure (.named (← spanFrom start) name)

/-- A pair of types in parentheses. -/
def tupleType (type : Method TypeExpr) (start : Nat) : Method TypeExpr := do
  let opened ← skip
  let first ← type
  if !(← acceptMark .comma) then
    fail { cause := .tupleTypeSize, span := ← spanFrom start, hints := [.tupleForm] }
  else
    let second ← type
    if ← atMark .comma then fail { cause := .tupleTypeSize, span := ← Parser.nextSpan }
    else
      closing .rParen opened
      pure (.tuple (← spanFrom start) first second)

/-- A type without the runs of `*` and `[]` behind it. -/
def baseType (type : Method TypeExpr) (start : Nat) : Method TypeExpr := do
  match ← nextKind with
  | .keyword (.primitive p) => do
    let _ ← skip
    pure (.primitive (← spanFrom start) p)
  | .ident name => namedType type start name
  | .punctuation .lParen => tupleType type start
  | _ => noType

/-- A type, with `type` as the method for what nests in it. -/
def typeBody (type : Method TypeExpr) : Method TypeExpr := do
  let start ← nextStart
  let base ← baseType type start
  Method.grow (fun t => typeSuffix start t) base

end Session

end ElleFrontEnd
