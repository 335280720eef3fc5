import ElleFrontEnd.Vocabulary.Operator

/-!
# Operations

The operators as they occur in a tree, sorted by role.  Each is written as one operator token.
-/

namespace ElleFrontEnd

/-- An operation with two operands; ranges are expressions of their own. -/
inductive BinaryOp
  | or | and | concat | bitOr | bitXor | bitAnd | eq | notEq | lt | ltEq | gt | gtEq | shl | shr | add | sub | mul
  | div | mod
deriving DecidableEq

namespace BinaryOp

/-- All operations. -/
def all : List BinaryOp :=
  [.or, .and, .concat, .bitOr, .bitXor, .bitAnd, .eq, .notEq, .lt, .ltEq, .gt, .gtEq, .shl, .shr, .add, .sub, .mul,
   .div, .mod]

/-- The operator token of the operation. -/
def operator : BinaryOp → Operator
  | .or => .orOr
  | .and => .andAnd
  | .concat => .concat
  | .bitOr => .pipe
  | .bitXor => .caret
  | .bitAnd => .amp
  | .eq => .eqEq
  | .notEq => .notEq
  | .lt => .lt
  | .ltEq => .ltEq
  | .gt => .gt
  | .gtEq => .gtEq
  | .shl => .shl
  | .shr => .shr
  | .add => .plus
  | .sub => .minus
  | .mul => .star
  | .div => .slash
  | .mod => .percent

/-- The operation that an operator token stands for between two operands. -/
def ofOperator? (op : Operator) : Option BinaryOp := all.find? (·.operator == op)

/-- How tightly the operation binds. -/
def precedence (op : BinaryOp) : Nat := op.operator.precedence

/-- The name of the operation in tree dumps. -/
def label : BinaryOp → String
  | .or => "Or"
  | .and => "And"
  | .concat => "Concat"
  | .bitOr => "BitOr"
  | .bitXor => "BitXor"
  | .bitAnd => "BitAnd"
  | .eq => "Eq"
  | .notEq => "NotEq"
  | .lt => "Lt"
  | .ltEq => "LtEq"
  | .gt => "Gt"
  | .gtEq => "GtEq"
  | .shl => "Shl"
  | .shr => "Shr"
  | .add => "Add"
  | .sub => "Sub"
  | .mul => "Mul"
  | .div => "Div"
  | .mod => "Mod"

end BinaryOp

/-- An operation with one operand. -/
inductive UnaryOp
  | not | bitNot | addrOf | neg | plus | deref
deriving DecidableEq

namespace UnaryOp

/-- All operations. -/
def all : List UnaryOp := [.not, .bitNot, .addrOf, .neg, .plus, .deref]

/-- The operator token of the operation. -/
def operator : UnaryOp → Operator
  | .not => .bang
  | .bitNot => .tilde
  | .addrOf => .amp
  | .neg => .minus
  | .plus => .plus
  | .deref => .star

/-- The operation that an operator token stands for before an operand. -/
def ofOperator? (op : Operator) : Option UnaryOp := all.find? (·.operator == op)

/-- The name of the operation in tree dumps. -/
def label : UnaryOp → String
  | .not => "Not"
  | .bitNot => "BitNot"
  | .addrOf => "AddrOf"
  | .neg => "Neg"
  | .plus => "Plus"
  | .deref => "Deref"

end UnaryOp

/-- An assignment, plain or combined with an operation. -/
inductive AssignOp
  | assign | add | sub | mul | div | mod | bitAnd | bitOr | bitXor | shl | shr | concat
deriving DecidableEq

namespace AssignOp

/-- All assignments. -/
def all : List AssignOp :=
  [.assign, .add, .sub, .mul, .div, .mod, .bitAnd, .bitOr, .bitXor, .shl, .shr, .concat]

/-- The operator token of the assignment. -/
def operator : AssignOp → Operator
  | .assign => .eq
  | .add => .plusEq
  | .sub => .minusEq
  | .mul => .starEq
  | .div => .slashEq
  | .mod => .percentEq
  | .bitAnd => .ampEq
  | .bitOr => .pipeEq
  | .bitXor => .caretEq
  | .shl => .shlEq
  | .shr => .shrEq
  | .concat => .concatEq

/-- The assignment that an operator token stands for. -/
def ofOperator? (op : Operator) : Option AssignOp := all.find? (·.operator == op)

/-- The name of the assignment in tree dumps. -/
def label : AssignOp → String
  | .assign => "Assign"
  | .add => "Add"
  | .sub => "Sub"
  | .mul => "Mul"
  | .div => "Div"
  | .mod => "Mod"
  | .bitAnd => "BitAnd"
  | .bitOr => "BitOr"
  | .bitXor => "BitXor"
  | .shl => "Shl"
  | .shr => "Shr"
  | .concat => "Concat"

end AssignOp

end ElleFrontEnd
