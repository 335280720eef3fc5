import ElleFrontEnd.Grammar.Declaration
import ElleFrontEnd.Layout.Program

/-!
# Formatting sources

Formatting reads a source and prints it in canonical form.  Comments are not part of the tree, so that a source with
comments is refused, rather than printed without them.
-/

namespace ElleFrontEnd

/-- The refusal of a comment. -/
def commentDiagnostic (span : Span) : Diagnostic :=
  { cause := .commentNotPreserved, span, hints := [.moveComment] }

/-- The canonical form of a source, or the reasons why it has none: its lexical diagnostics, else its comments, else
its syntactic diagnostics. -/
def formatSource (source : String) (config : LayoutConfig) : Except (List Diagnostic) String :=
  let lexed := lex source
  if !lexed.errors.isEmpty then .error lexed.errors
  else if !lexed.comments.isEmpty then .error (lexed.comments.map commentDiagnostic)
  else (parseTokens lexed.tokens {}).map (·.print config)

/-- Whether a source is in canonical form. -/
def isFormatted (source : String) (config : LayoutConfig) : Except (List Diagnostic) Bool :=
  (formatSource source config).map (· == source)

/-! ### Differences by line -/

/-- A text without a carriage return at its end. -/
def dropReturn (line : List Char) : List Char :=
  match line.reverse with
  | '\r' :: front => front.reverse
  | _ => line

/-- The lines of a text, where `current` holds the characters of the present line in reverse.  A line ends at a line
feed, and a carriage return before the line feed does not belong to it. -/
def linesFrom (current : List Char) : List Char → List String
  | [] => if current.isEmpty then [] else [String.ofList current.reverse]
  | c :: cs =>
    if c = '\n' then String.ofList (dropReturn current.reverse) :: linesFrom [] cs
    else linesFrom (c :: current) cs

/-- The lines of a text. -/
def textLines (text : String) : List String := linesFrom [] text.toList

/-- A line number, right-aligned in four columns. -/
def lineNumber (n : Nat) : String :=
  let digits := toString n
  String.ofList (List.replicate (4 - digits.length) ' ') ++ digits

/-- The entry for one side of a line that differs; an empty line has none. -/
def diffEntry (sign : String) (n : Nat) (line : String) : String :=
  if line.isEmpty then "" else s!"{sign}{lineNumber n} | {line}\n"

/-- The entries for the lines from number `n` on; where one side has no more lines, its lines count as empty. -/
def diffFrom (n : Nat) : List String → List String → String
  | [], [] => ""
  | old :: olds, [] => diffEntry "-" n old ++ diffFrom (n + 1) olds []
  | [], new :: news => diffEntry "+" n new ++ diffFrom (n + 1) [] news
  | old :: olds, new :: news =>
    (if old = new then "" else diffEntry "-" n old ++ diffEntry "+" n new) ++ diffFrom (n + 1) olds news

/-- The lines in which a source differs from its canonical form, or nothing if it is in that form. -/
def formatDiff (source : String) (config : LayoutConfig) : Except (List Diagnostic) (Option String) :=
  (formatSource source config).map fun formatted =>
    if formatted = source then none else some (diffFrom 1 (textLines source) (textLines formatted))

end ElleFrontEnd
