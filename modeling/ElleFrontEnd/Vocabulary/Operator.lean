import ElleFrontEnd.Vocabulary.Example

/-!
# Operators

The operator tokens with the data that expression parsing and printing share: how tightly an operator binds, which
way a chain of it groups, and whether its spelling may also stand before an operand.  Binary levels run from `||`
(1) to the ranges (12); a higher level binds tighter.  The conditional `?:` is no operator token and lies below
level 1.
-/

namespace ElleFrontEnd

/-- How a chain of one operator groups. -/
inductive Associativity
  | left | right | none
deriving DecidableEq

/-- The name of a grouping rule. -/
def Associativity.label : Associativity → String
  | .left => "Left"
  | .right => "Right"
  | .none => "None"

/-- Where an operator stands. -/
inductive Fixity
  /-- between two operands -/
  | between
  /-- only before an operand -/
  | before
  /-- in an assignment or a declaration, outside of expressions -/
  | assignment
deriving DecidableEq

/-- The name of an operator's place. -/
def Fixity.label : Fixity → String
  | .between => "Infix"
  | .before => "Prefix"
  | .assignment => "Assignment"

/-- An operator token. -/
inductive Operator
  | orOr | andAnd | concat | pipe | caret | amp
  | eqEq | notEq | lt | ltEq | gt | gtEq
  | shl | shr | plus | minus | star | slash | percent
  | dotDot | dotDotEq
  | bang | tilde
  | eq | plusEq | minusEq | starEq | slashEq | percentEq | ampEq | pipeEq | caretEq | shlEq | shrEq | concatEq
  | colonEq
deriving DecidableEq

namespace Operator

/-- The operator table. -/
def all : List Operator :=
  [.orOr, .andAnd, .concat, .pipe, .caret, .amp, .eqEq, .notEq, .lt, .ltEq, .gt, .gtEq, .shl, .shr, .plus, .minus,
   .star, .slash, .percent, .dotDot, .dotDotEq, .bang, .tilde, .eq, .plusEq, .minusEq, .starEq, .slashEq, .percentEq,
   .ampEq, .pipeEq, .caretEq, .shlEq, .shrEq, .concatEq, .colonEq]

/-- How the operator is written. -/
def spelling : Operator → String
  | .orOr => "||"
  | .andAnd => "&&"
  | .concat => "<>"
  | .pipe => "|"
  | .caret => "^"
  | .amp => "&"
  | .eqEq => "=="
  | .notEq => "!="
  | .lt => "<"
  | .ltEq => "<="
  | .gt => ">"
  | .gtEq => ">="
  | .shl => "<<"
  | .shr => ">>"
  | .plus => "+"
  | .minus => "-"
  | .star => "*"
  | .slash => "/"
  | .percent => "%"
  | .dotDot => ".."
  | .dotDotEq => "..="
  | .bang => "!"
  | .tilde => "~"
  | .eq => "="
  | .plusEq => "+="
  | .minusEq => "-="
  | .starEq => "*="
  | .slashEq => "/="
  | .percentEq => "%="
  | .ampEq => "&="
  | .pipeEq => "|="
  | .caretEq => "^="
  | .shlEq => "<<="
  | .shrEq => ">>="
  | .concatEq => "<>="
  | .colonEq => ":="

/-- The name of the operator in token dumps. -/
def label : Operator → String
  | .orOr => "OrOr"
  | .andAnd => "AndAnd"
  | .concat => "Concat"
  | .pipe => "Pipe"
  | .caret => "Caret"
  | .amp => "Amp"
  | .eqEq => "EqEq"
  | .notEq => "NotEq"
  | .lt => "Lt"
  | .ltEq => "LtEq"
  | .gt => "Gt"
  | .gtEq => "GtEq"
  | .shl => "Shl"
  | .shr => "Shr"
  | .plus => "Plus"
  | .minus => "Minus"
  | .star => "Star"
  | .slash => "Slash"
  | .percent => "Percent"
  | .dotDot => "DotDot"
  | .dotDotEq => "DotDotEq"
  | .bang => "Bang"
  | .tilde => "Tilde"
  | .eq => "Eq"
  | .plusEq => "PlusEq"
  | .minusEq => "MinusEq"
  | .starEq => "StarEq"
  | .slashEq => "SlashEq"
  | .percentEq => "PercentEq"
  | .ampEq => "AmpEq"
  | .pipeEq => "PipeEq"
  | .caretEq => "CaretEq"
  | .shlEq => "ShlEq"
  | .shrEq => "ShrEq"
  | .concatEq => "ConcatEq"
  | .colonEq => "ColonEq"

/-- Where the operator stands. -/
def fixity : Operator → Fixity
  | .bang | .tilde => .before
  | .eq | .plusEq | .minusEq | .starEq | .slashEq | .percentEq | .ampEq | .pipeEq | .caretEq | .shlEq | .shrEq
  | .concatEq | .colonEq => .assignment
  | _ => .between

/-- The level of an operator between operands; 0 for the others. -/
def precedence : Operator → Nat
  | .orOr => 1
  | .andAnd => 2
  | .concat => 3
  | .pipe => 4
  | .caret => 5
  | .amp => 6
  | .eqEq | .notEq => 7
  | .lt | .ltEq | .gt | .gtEq => 8
  | .shl | .shr => 9
  | .plus | .minus => 10
  | .star | .slash | .percent => 11
  | .dotDot | .dotDotEq => 12
  | _ => 0

/-- Chains of ranges, and of operators that do not stand between operands, group to the right. -/
def associativity : Operator → Associativity
  | .dotDot | .dotDotEq => .right
  | op => if op.fixity = .between then .left else .right

/-- Whether the spelling can also stand before an operand. -/
def leads : Operator → Bool
  | .amp | .plus | .minus | .star | .bang | .tilde => true
  | _ => false

/-- Every operator is current. -/
def stability (_ : Operator) : Stability := .stable

/-- Example programs for the operator. -/
def examples : Operator → List Example
  | .dotDot => [{ code := "fn main() \x7b for i in 0..10 \x7b \x7d \x7d", note := some "Exclusive range." }]
  | .dotDotEq => [{ code := "fn main() \x7b for i in 1..=10 \x7b \x7d \x7d", note := some "Inclusive range." }]
  | _ => []

/-- The operator with the given spelling. -/
def ofSpelling? (text : String) : Option Operator := all.find? (·.spelling == text)

/-- Level and grouping of an operator that stands between operands. -/
def binaryPower? (op : Operator) : Option (Nat × Associativity) :=
  if op.fixity = .between then some (op.precedence, op.associativity) else none

/-- Whether the operator can open a unary expression. -/
def isUnary (op : Operator) : Bool := op.leads || op.fixity = .before

/-- Whether the operator assigns to an existing place; `:=` introduces a name instead. -/
def isAssignment (op : Operator) : Bool := op.fixity = .assignment && op ≠ .colonEq

end Operator

end ElleFrontEnd
