import ElleFrontEnd.Layout.Type
import ElleFrontEnd.Tree.Expr

/-!
# Printing expressions and statements

Parentheses of the source are nodes of the tree and are printed as such.  Further ones are added only where a tree
would otherwise be read back differently, which is decided by how tightly an expression binds (`Expr.level`) and by
whether the place where it stands is open to the right: the body of a lambda would swallow what follows it.
-/

namespace ElleFrontEnd

open Fragment

/-! ### How tightly an expression binds -/

/-- The levels of the forms that are no chain of operators between operands. -/
def conditionalLevel : Nat := 0

/-- The level of an operator before its operand, a cast, and a lambda that ends in an expression. -/
def leadingLevel : Nat := 13

/-- The level of calls, members and subscripts. -/
def trailingLevel : Nat := 14

/-- The level of what needs no parentheses anywhere. -/
def primaryLevel : Nat := 15

/-- The operator of a range. -/
def rangeOperator (inclusive : Bool) : Operator := if inclusive then .dotDotEq else .dotDot

/-- How tightly an expression binds as an operand. -/
def Expr.level : Expr → Nat
  | .conditional _ _ _ _ => conditionalLevel
  | .binary _ _ op _ => op.precedence
  | .range _ _ _ inclusive => (rangeOperator inclusive).precedence
  | .unary _ _ _ | .cast _ _ _ | .lambda _ _ _ => leadingLevel
  | .call _ _ _ _ | .member _ _ _ | .subscript _ _ _ => trailingLevel
  | _ => primaryLevel

/-- The lowest levels that the two operands of an operator may have. -/
def operandLevels (op : Operator) : Nat × Nat :=
  match op.associativity with
  | .left => (op.precedence, op.precedence + 1)
  | .right => (op.precedence + 1, op.precedence)
  | .none => (op.precedence + 1, op.precedence + 1)

/-- Whether the expression is a lambda that ends in an expression. -/
def Expr.endsInBody : Expr → Bool
  | .lambda _ _ _ => true
  | _ => false

/-- Whether an expression needs parentheses where at least `level` is required. -/
def Expr.needsGroup (level : Nat) (openRight : Bool) (e : Expr) : Bool :=
  e.level < level || (e.endsInBody && !openRight)

/-- An expression printed by `inner`, in parentheses where it needs them. -/
def grouped (level : Nat) (openRight : Bool) (e : Expr) (inner : Bool → List Fragment) : List Fragment :=
  if e.needsGroup level openRight then parens (inner true) else inner openRight

/-- Whether an expression begins with an operator that could also stand between two operands, or with a bracket.
Only the head of a chain of calls, members and subscripts counts, and only if it needs no parentheses there. -/
def Expr.opensAmbiguously : Expr → Bool
  | .unary _ op _ => op = .neg || op = .plus || op = .deref || op = .addrOf
  | .array _ _ isStatic _ => !isStatic
  | .call _ callee _ _ => trailingLevel ≤ callee.level && callee.opensAmbiguously
  | .member _ object _ | .subscript _ object _ => trailingLevel ≤ object.level && object.opensAmbiguously
  | _ => false

/-- The space between two operators before an operand that would otherwise be read as one. -/
def unarySpace (op : UnaryOp) : Expr → List Fragment
  | .unary _ inner _ =>
    if (Operator.ofSpelling? (op.operator.spelling ++ inner.operator.spelling)).isSome then [space] else []
  | _ => []

/-- The space before the arguments of a sigil that is called as a whole. -/
def calleeSpace : Expr → List Fragment
  | .sigil _ _ none => [space]
  | _ => []

/-- The condition of an `if` or `while`, printed as `inner`.  Reading strips one pair of parentheses, so that a
condition in parentheses gets another pair; a condition that shows a brace is kept out of the place where a brace
would open the body. -/
def headerLayout (condition : Expr) (inner : List Fragment) : List Fragment :=
  if condition.isParen || inner.any (fun f => (f.text 0).toList.contains '{') then parens inner else inner

/-- A declaration of a variable, with its value as printed. -/
def bindingLayout (binding : Binding) (type : Option TypeExpr) (n : String) (init : Option (List Fragment)) :
    List Fragment :=
  let value : List Fragment := match init with
    | none => []
    | some v => [space, op .eq, space] ++ v
  match binding, type, init with
  | .walrus, _, some v => [ofName n, space, op .colonEq, space] ++ v
  | .typed, some t, _ => t.layout ++ [space, ofName n] ++ value
  | _, _, _ => [word .letKw, space, ofName n] ++ value

/-- An assignment, with its sides as printed. -/
def assignLayout (target : List Fragment) (form : AssignOp) (value : List Fragment) : List Fragment :=
  target ++ [space, op form.operator, space] ++ value

/-- Statements in braces, each on a line of its own. -/
def braces (depth : Nat) (statements : List (List Fragment)) : List Fragment :=
  if statements.isEmpty then [mark .lBrace, mark .rBrace]
  else
    mark .lBrace :: (statements.map fun s => line (depth + 1) :: s).flatten ++ [line depth, mark .rBrace]

/-- An `if` up to the end of its first block. -/
def ifLayout (condition body : List Fragment) : List Fragment :=
  [word .ifKw, space] ++ condition ++ [space] ++ body

/-- What stands before the second block of an `if`. -/
def elseWord : List Fragment := [space, word .elseKw, space]

/-- A count behind a comma, if there is one. -/
def countLayout : Option (List Fragment) → List Fragment
  | none => []
  | some count => commaSpace ++ count

/-! ### The printer -/

mutual

/-- An expression as fragments, in lines of the given depth, without parentheses around it.  `openRight` is unset
where an operator or a bracket follows. -/
def Expr.layout (depth : Nat) (openRight : Bool) : Expr → List Fragment
  | .binary _ left binary right =>
    let levels := operandLevels binary.operator
    grouped levels.1 false left (fun o => left.layout depth o) ++ [space, op binary.operator, space] ++
      grouped levels.2 openRight right (fun o => right.layout depth o)
  | .range _ start stop inclusive =>
    let levels := operandLevels (rangeOperator inclusive)
    grouped levels.1 false start (fun o => start.layout depth o) ++ [op (rangeOperator inclusive)] ++
      grouped levels.2 openRight stop (fun o => stop.layout depth o)
  | .unary _ unary operand =>
    op unary.operator :: unarySpace unary operand ++
      grouped leadingLevel openRight operand (fun o => operand.layout depth o)
  | .cast _ type operand =>
    parens type.layout ++ [space] ++
      (if type.isNamed && operand.opensAmbiguously then parens (operand.layout depth true)
       else grouped leadingLevel openRight operand (fun o => operand.layout depth o))
  | .call _ callee generics args =>
    grouped trailingLevel false callee (fun o => callee.layout depth o) ++ calleeSpace callee ++
      optTypeArgsLayout generics ++ parens (commas (exprListLayout depth args))
  | .member _ object n =>
    grouped trailingLevel false object (fun o => object.layout depth o) ++ [mark .dot, ofName n]
  | .subscript _ object index =>
    grouped trailingLevel false object (fun o => object.layout depth o) ++ [mark .lBracket] ++
      index.layout depth true ++ [mark .rBracket]
  | .conditional _ condition none alternative =>
    grouped (conditionalLevel + 1) false condition (fun o => condition.layout depth o) ++
      [space, mark .question, space, mark .colon, space] ++
      grouped conditionalLevel openRight alternative (fun o => alternative.layout depth o)
  | .conditional _ condition (some chosen) alternative =>
    grouped (conditionalLevel + 1) false condition (fun o => condition.layout depth o) ++
      [space, mark .question, space] ++ chosen.layout depth true ++ [space, mark .colon, space] ++
      grouped conditionalLevel openRight alternative (fun o => alternative.layout depth o)
  | .paren _ inner => parens (inner.layout depth true)
  | .ident _ n => [ofName n]
  | .qualified _ path => separated [mark .colonColon] (path.map fun n => [ofName n])
  | .rawName _ raw => [.token (.rawName raw)]
  | .number _ literal => [.token (.number literal)]
  | .str _ parts => [.token (.str parts)]
  | .bool _ value => [word (.boolean value)]
  | .char _ part => [.token (.char part)]
  | .array _ element isStatic elements =>
    (if isStatic then [mark .hash] else []) ++ [mark .lBracket] ++
      (match element with
       | none => []
       | some t => t.layout ++ [mark .semicolon] ++ (if elements.isEmpty then [] else [space])) ++
      commas (exprListLayout depth elements) ++ [mark .rBracket]
  | .tuple _ first second =>
    mark .dollar :: parens (commas [first.layout depth true, second.layout depth true])
  | .triple _ first second third =>
    mark .dollar :: mark .dollar ::
      parens (commas [first.layout depth true, second.layout depth true, third.layout depth true])
  | .structLit _ n generics fields =>
    ofName n :: optTypeArgsLayout generics ++
      (if fields.isEmpty then [space, mark .lBrace, mark .rBrace]
       else
        [space, mark .lBrace, space] ++ commas (fieldInitListLayout depth fields) ++ [space, mark .rBrace])
  | .lambda _ params body =>
    word .fn :: params.layout ++ [space] ++
      grouped conditionalLevel openRight body (fun o => body.layout depth o)
  | .blockLambda _ params body => word .fn :: params.layout ++ [space] ++ body.layout depth
  | .directive _ directive => directive.layout depth
  | .sigil _ n none => [mark .dollar, ofName n]
  | .sigil _ n (some args) => [mark .dollar, ofName n] ++ parens (commas (exprListLayout depth args))

/-- Each of several expressions as fragments. -/
def exprListLayout (depth : Nat) : List Expr → List (List Fragment)
  | [] => []
  | e :: es => e.layout depth true :: exprListLayout depth es

/-- Each field of a struct literal as fragments. -/
def fieldInitListLayout (depth : Nat) : List FieldInit → List (List Fragment)
  | [] => []
  | .mk _ n value :: fields =>
    ([ofName n, space, op .eq, space] ++ value.layout depth true) :: fieldInitListLayout depth fields

/-- A directive as fragments. -/
def Directive.layout (depth : Nat) : Directive → List Fragment
  | .len value => [mark .hash, ofName DirectiveName.len.spelling] ++ parens (value.layout depth true)
  | .size type => [mark .hash, ofName DirectiveName.size.spelling] ++ parens type.layout
  | .ident n => [mark .hash, ofName DirectiveName.ident.spelling] ++ parens [ofName n]
  | .env => [mark .hash, ofName DirectiveName.env.spelling]
  | .alloc type none => [mark .hash, ofName DirectiveName.alloc.spelling] ++ parens type.layout
  | .alloc type (some count) =>
    [mark .hash, ofName DirectiveName.alloc.spelling] ++ parens (commas [type.layout, count.layout depth true])
  | .realloc pointer type none =>
    [mark .hash, ofName DirectiveName.realloc.spelling] ++ parens (commas [pointer.layout depth true, type.layout])
  | .realloc pointer type (some count) =>
    [mark .hash, ofName DirectiveName.realloc.spelling] ++
      parens (commas [pointer.layout depth true, type.layout, count.layout depth true])
  | .free value => [mark .hash, ofName DirectiveName.free.spelling] ++ parens (value.layout depth true)
  | .setAllocator value => [mark .hash, ofName DirectiveName.setAllocator.spelling] ++ parens (value.layout depth true)
  | .resetAllocator => [mark .hash, ofName DirectiveName.resetAllocator.spelling] ++ parens []

/-- A block as fragments, without a line break behind it. -/
def Block.layout (depth : Nat) : Block → List Fragment
  | .mk _ statements => braces depth (stmtListLayout (depth + 1) statements)

/-- Each of several statements as fragments. -/
def stmtListLayout (depth : Nat) : List Stmt → List (List Fragment)
  | [] => []
  | s :: ss => s.layout depth :: stmtListLayout depth ss

/-- A statement as fragments. -/
def Stmt.layout (depth : Nat) : Stmt → List Fragment
  | .expr _ value => value.layout depth true ++ [mark .semicolon]
  | .varDecl _ binding type n none => bindingLayout binding type n none ++ [mark .semicolon]
  | .varDecl _ binding type n (some init) =>
    bindingLayout binding type n (some (init.layout depth true)) ++ [mark .semicolon]
  | .assign _ target form value =>
    assignLayout (target.layout depth true) form (value.layout depth true) ++ [mark .semicolon]
  | .ifElse _ condition body otherwise =>
    ifLayout (headerLayout condition (condition.layout depth true)) (body.layout depth) ++ otherwise.layout depth
  | .whileLoop _ condition body =>
    [word .whileKw, space] ++ headerLayout condition (condition.layout depth true) ++ [space] ++ body.layout depth
  | .forLoop _ init condition step body =>
    [word .forKw, space] ++
      parens (init.layout depth ++ [mark .semicolon, space] ++ condition.layout depth true ++
        [mark .semicolon, space] ++ step.layout depth) ++
      [space] ++ body.layout depth
  | .forEach _ n iterable body =>
    [word .forKw, space, ofName n, space, word .inKw, space] ++ iterable.layout depth true ++ [space] ++
      body.layout depth
  | .defer _ value => [word .deferKw, space] ++ value.layout depth true ++ [mark .semicolon]
  | .returnValue _ none => [word .returnKw, mark .semicolon]
  | .returnValue _ (some value) => [word .returnKw, space] ++ value.layout depth true ++ [mark .semicolon]
  | .breakLoop _ => [word .breakKw, mark .semicolon]
  | .continueLoop _ => [word .continueKw, mark .semicolon]
  | .block _ statements => braces depth (stmtListLayout (depth + 1) statements)
  | .buffer _ type n size =>
    type.layout ++ [space, ofName n, mark .lBracket] ++ size.layout depth true ++ [mark .rBracket, mark .semicolon]

/-- What follows the block of an `if`, as fragments. -/
def Else.layout (depth : Nat) : Else → List Fragment
  | .absent => []
  | .block body => elseWord ++ body.layout depth
  | .elseIf _ condition body otherwise =>
    elseWord ++ ifLayout (headerLayout condition (condition.layout depth true)) (body.layout depth) ++
      otherwise.layout depth

/-- What a `for` loop starts with, as fragments. -/
def ForInit.layout (depth : Nat) : ForInit → List Fragment
  | .varDecl _ binding type n none => bindingLayout binding type n none
  | .varDecl _ binding type n (some init) => bindingLayout binding type n (some (init.layout depth true))
  | .expr value => value.layout depth true

/-- What a `for` loop does after each round, as fragments. -/
def ForStep.layout (depth : Nat) : ForStep → List Fragment
  | .assign _ target form value => assignLayout (target.layout depth true) form (value.layout depth true)
  | .expr value => value.layout depth true

end

end ElleFrontEnd
