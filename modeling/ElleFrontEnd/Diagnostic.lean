import ElleFrontEnd.Text.Escaped
import ElleFrontEnd.Token.Basic
import ElleFrontEnd.Vocabulary.Directive

/-!
# Diagnostics

A diagnostic records why a source was refused and where.  Its cause is data; `Cause.kind` sorts causes into the
classes that have a stable code, and `Cause.message` is the only place that words them.  Notes and hints are data in
the same way.
-/

namespace ElleFrontEnd

/-- The classes of diagnostics. -/
inductive ErrorKind
  | unterminatedString | unterminatedComment | invalidEscape | invalidNumber | invalidChar | unexpectedCharacter
  | expectedType | expectedExpression | expectedOperand | expectedToken | unbalancedDelimiter | unknownDirective
  | invalidArity | tooDeep | expectedDeclaration
  | commentNotPreserved
deriving DecidableEq

/-- The stage that raises a diagnostic. -/
inductive Stage
  | lexing | parsing | formatting
deriving DecidableEq

namespace ErrorKind

/-- The stage that raises diagnostics of a class. -/
def stage : ErrorKind → Stage
  | .unterminatedString | .unterminatedComment | .invalidEscape | .invalidNumber | .invalidChar
  | .unexpectedCharacter => .lexing
  | .commentNotPreserved => .formatting
  | _ => .parsing

/-- The stable code of a class. -/
def code : ErrorKind → String
  | .unterminatedString => "elle::lex::unterminated_string"
  | .unterminatedComment => "elle::lex::unterminated_comment"
  | .invalidEscape => "elle::lex::invalid_escape"
  | .invalidNumber => "elle::lex::invalid_number"
  | .invalidChar => "elle::lex::invalid_char"
  | .unexpectedCharacter => "elle::lex::unexpected_character"
  | .expectedType => "elle::parse::expected_type"
  | .expectedExpression => "elle::parse::expected_expression"
  | .expectedOperand => "elle::parse::expected_operand"
  | .expectedToken => "elle::parse::expected_token"
  | .unbalancedDelimiter => "elle::parse::unbalanced_delimiter"
  | .unknownDirective => "elle::parse::unknown_directive"
  | .invalidArity => "elle::parse::invalid_arity"
  | .tooDeep => "elle::parse::too_deep"
  | .expectedDeclaration => "elle::parse::expected_declaration"
  | .commentNotPreserved => "elle::fmt::comment_not_preserved"

/-- The words that label the place of a diagnostic. -/
def text : ErrorKind → String
  | .unterminatedString => "unterminated string literal"
  | .unterminatedComment => "unterminated block comment"
  | .invalidEscape => "invalid escape sequence"
  | .invalidNumber => "invalid numeric literal"
  | .invalidChar => "invalid character literal"
  | .unexpectedCharacter => "unexpected character"
  | .expectedType => "expected a type"
  | .expectedExpression => "expected an expression"
  | .expectedOperand => "expected an operand"
  | .expectedToken => "expected token"
  | .unbalancedDelimiter => "unbalanced delimiter"
  | .unknownDirective => "unknown directive"
  | .invalidArity => "wrong number of elements"
  | .tooDeep => "nesting too deep"
  | .expectedDeclaration => "expected a declaration"
  | .commentNotPreserved => "comment would be dropped"

/-- The name of a class. -/
def label : ErrorKind → String
  | .unterminatedString => "UnterminatedString"
  | .unterminatedComment => "UnterminatedComment"
  | .invalidEscape => "InvalidEscape"
  | .invalidNumber => "InvalidNumericLiteral"
  | .invalidChar => "InvalidCharLiteral"
  | .unexpectedCharacter => "UnexpectedCharacter"
  | .expectedType => "ExpectedType"
  | .expectedExpression => "ExpectedExpression"
  | .expectedOperand => "ExpectedOperand"
  | .expectedToken => "ExpectedToken"
  | .unbalancedDelimiter => "UnbalancedDelimiter"
  | .unknownDirective => "UnknownDirective"
  | .invalidArity => "InvalidArity"
  | .tooDeep => "TooDeep"
  | .expectedDeclaration => "ExpectedDeclaration"
  | .commentNotPreserved => "CommentNotPreserved"

end ErrorKind

/-- The quoted literals that can lack their end. -/
inductive QuotedForm
  | string | character | rawName
deriving DecidableEq

/-- What the grammar wants at a token. -/
inductive Expected
  | keyword (word : Keyword)
  | operator (op : Operator)
  | punctuation (mark : Punctuation)
  | identifier
  /-- `pub` or `external`, after `global` -/
  | globalOption
  /-- a modifier after its `!` -/
  | modifierAfterBang
  /-- the end of a struct field -/
  | fieldEnd
  /-- a name right after `#` -/
  | directiveName
  /-- one of the forms that begin with `$` -/
  | dollarForm
deriving DecidableEq

/-- The words for what the grammar wants. -/
def Expected.text : Expected → String
  | .keyword k => s!"`{k.spelling}`"
  | .operator o => s!"`{o.spelling}`"
  | .punctuation p => s!"`{p.spelling}`"
  | .identifier => "identifier"
  | .globalOption => "`pub` or `external`"
  | .modifierAfterBang => "`pub`, `local` or `external` after `!`"
  | .fieldEnd => "`;` after struct field"
  | .directiveName => "directive name after `#`"
  | .dollarForm => "`(`, `$(` or a sigil name directly after `$`"

/-- The literals with a fixed number of elements. -/
inductive FixedLiteral
  | tuple | triple
deriving DecidableEq

namespace FixedLiteral

/-- The number of elements. -/
def size : FixedLiteral → Nat
  | .tuple => 2
  | .triple => 3

/-- The word for the literal. -/
def text : FixedLiteral → String
  | .tuple => "tuple"
  | .triple => "triple"

end FixedLiteral

/-- Why a source is refused. -/
inductive Cause
  | unterminated (form : QuotedForm)
  | unterminatedComment
  /-- an escape in a string with too few digits -/
  | shortEscape (digits : String)
  /-- an escape in a character literal with too few digits -/
  | shortCharEscape
  | malformedNumber (text : String)
  /-- a character literal without exactly one character or escape -/
  | charLength
  | emptyRawName
  | unexpectedCharacter (c : Char)
  | noType (found : TokenKind)
  | noExpression (found : TokenKind)
  /-- a buffer declared where a loop counter should be -/
  | bufferInLoopHeader
  | noOperand (after : Operator) (found : TokenKind)
  | wrongOperands (directive : DirectiveName) (found : TokenKind)
  | unexpected (wanted : Expected) (found : TokenKind)
  | bodyOfExternal (name : String)
  | unclosed (opener : Punctuation) (found : TokenKind)
  | unknownDirective (name : String)
  /-- a tuple type without exactly two elements -/
  | tupleTypeSize
  | literalSize (form : FixedLiteral) (found : Nat)
  | tooDeep (limit : Nat)
  | noDeclaration (found : TokenKind)
  | commentNotPreserved
deriving DecidableEq

namespace Cause

/-- The class of a cause. -/
def kind : Cause → ErrorKind
  | .unterminated _ => .unterminatedString
  | .unterminatedComment => .unterminatedComment
  | .shortEscape _ | .shortCharEscape => .invalidEscape
  | .malformedNumber _ => .invalidNumber
  | .charLength | .emptyRawName => .invalidChar
  | .unexpectedCharacter _ => .unexpectedCharacter
  | .noType _ => .expectedType
  | .noExpression _ | .bufferInLoopHeader => .expectedExpression
  | .noOperand _ _ | .wrongOperands _ _ => .expectedOperand
  | .unexpected _ _ | .bodyOfExternal _ => .expectedToken
  | .unclosed _ _ => .unbalancedDelimiter
  | .unknownDirective _ => .unknownDirective
  | .tupleTypeSize | .literalSize _ _ => .invalidArity
  | .tooDeep _ => .tooDeep
  | .noDeclaration _ => .expectedDeclaration
  | .commentNotPreserved => .commentNotPreserved

/-- The message for a cause. -/
def message : Cause → String
  | .unterminated .string => "unterminated string literal"
  | .unterminated .character => "unterminated character literal"
  | .unterminated .rawName => "unterminated exact literal"
  | .unterminatedComment => "unterminated block comment"
  | .shortEscape digits => "invalid escape sequence after `\\` (read `" ++ digits ++ "`)"
  | .shortCharEscape => "invalid escape sequence"
  | .malformedNumber text => s!"invalid numeric literal `{text}`"
  | .charLength => "character literals hold exactly one character or escape"
  | .emptyRawName => "exact literal must not be empty"
  | .unexpectedCharacter c => "unexpected character `" ++ escapedChar ['"', '\''] c ++ "`"
  | .noType found => s!"expected type, found {found.describe}"
  | .noExpression found => s!"expected expression, found {found.describe}"
  | .bufferInLoopHeader => "static buffers cannot initialize a `for` loop"
  | .noOperand after found => s!"expected operand after `{after.spelling}`, found {found.describe}"
  | .wrongOperands d found => s!"wrong operands for `#{d.spelling}`, found {found.describe}"
  | .unexpected wanted found => s!"expected {wanted.text}, found {found.describe}"
  | .bodyOfExternal name => s!"external function `{name}` cannot have a body"
  | .unclosed opener found => s!"unclosed `{opener.spelling}`, found {found.describe}"
  | .unknownDirective name => s!"unknown directive `#{name}`"
  | .tupleTypeSize => "tuple types have exactly two elements"
  | .literalSize form found => s!"{form.text} literal takes exactly {form.size} elements, found {found}"
  | .tooDeep limit => s!"nesting exceeds the limit of {limit}"
  | .noDeclaration found => s!"expected declaration, found {found.describe}"
  | .commentNotPreserved => "cannot format a file with comments: the formatter does not keep them"

end Cause

/-- A fact that helps to place a diagnostic. -/
inductive Note
  | previousEndsAt (offset : Nat)
  | openedAt (offset : Nat)
deriving DecidableEq

/-- The wording of a note. -/
def Note.text : Note → String
  | .previousEndsAt offset => s!"previous item ends at offset {offset}"
  | .openedAt offset => s!"delimiter opened at offset {offset}"

/-- Advice on how to mend a source. -/
inductive Hint
  | addSemicolon
  | insert (closer : Punctuation)
  | endWithSemicolon
  | bodyOrSemicolon
  | tupleForm
  | typeForms
  | topLevelForms
  | knownDirectives
  | usage (directive : DirectiveName)
  | moveComment
deriving DecidableEq

/-- The wording of a hint. -/
def Hint.text : Hint → String
  | .addSemicolon => "add `;`"
  | .insert closer => s!"insert `{closer.spelling}`"
  | .endWithSemicolon => "end the declaration with `;`"
  | .bodyOrSemicolon => "a function needs a `\x7b ... \x7d` body or `;`"
  | .tupleForm => "write `(T, U)`"
  | .typeForms => "types are primitives (`i32`, `string`, `fn`, ...), names, `T*`, `T[]`, `Name<T>` or `(T, U)`"
  | .topLevelForms => "top-level items are `use`, `global`, `namespace`, `fn`, `const` and `struct`"
  | .knownDirectives => "known directives: " ++ ", ".intercalate (DirectiveName.all.map fun d => s!"#{d.spelling}")
  | .usage d => s!"usage: {d.signature}"
  | .moveComment => "remove or relocate the comment, or format a copy without comments"

/-- One refusal of a source: why, where, and what may help. -/
structure Diagnostic where
  cause : Cause
  span : Span
  notes : List Note := []
  hints : List Hint := []
deriving DecidableEq

namespace Diagnostic

/-- The class of a diagnostic. -/
def kind (d : Diagnostic) : ErrorKind := d.cause.kind

/-- The message of a diagnostic. -/
def message (d : Diagnostic) : String := d.cause.message

/-- The diagnostic with one more hint. -/
def withHint (d : Diagnostic) (hint : Hint) : Diagnostic := { d with hints := d.hints ++ [hint] }

/-- The diagnostic with one more note. -/
def withNote (d : Diagnostic) (note : Note) : Diagnostic := { d with notes := d.notes ++ [note] }

/-- The lines of help that go with a diagnostic: its notes, marked as such, then its hints. -/
def help? (d : Diagnostic) : Option String :=
  if d.notes.isEmpty && d.hints.isEmpty then none
  else some ("\n".intercalate (d.notes.map (fun n => s!"note: {n.text}") ++ d.hints.map Hint.text))

end Diagnostic

end ElleFrontEnd
