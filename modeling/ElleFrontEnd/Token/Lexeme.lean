import ElleFrontEnd.Diagnostic
import ElleFrontEnd.Text.Blank

/-!
# Lexemes

A lexeme is what stands at one place of a text: blank space, a comment, a token, or something malformed.  `lexemeAt`
looks at the text from there on and says how many characters belong to the lexeme and what it yields.  It is written
by the first character: each form has a small reader of its own, and each reader says how far it went.

`lexemes` cuts a whole text.  Since a lexeme always takes its first character, the cut ends, and since the remaining
text is what the lexeme left, nothing is lost (`flatMap_taken_lexemes`).
-/

namespace ElleFrontEnd

/-- A malformed place inside a lexeme: from and up to which of its characters it reaches, and why it is refused. -/
structure Fault where
  cause : Cause
  start : Nat
  stop : Nat
deriving DecidableEq

/-- What a lexeme yields, and how many characters it takes after its first. -/
structure Lexeme where
  more : Nat
  token : Option TokenKind := none
  isComment : Bool := false
  faults : List Fault := []
deriving DecidableEq

namespace Lexeme

/-- Space between tokens. -/
def blank (more : Nat) : Lexeme := { more }

/-- A comment. -/
def comment (more : Nat) : Lexeme := { more, isComment := true }

/-- A token. -/
def ofToken (more : Nat) (kind : TokenKind) : Lexeme := { more, token := some kind }

/-- Something refused as a whole. -/
def refused (more : Nat) (cause : Cause) : Lexeme := { more, faults := [⟨cause, 0, more + 1⟩] }

end Lexeme

/-! ### Words -/

/-- Whether a character can open a word. -/
def isWordStart (c : Char) : Bool := c.isAlpha || c = '_'

/-- Whether a character can continue a word. -/
def isWordPart (c : Char) : Bool := c.isAlphanum || c = '_'

/-- A word is a keyword if it is reserved, and a name otherwise. -/
def wordKind (word : String) : TokenKind :=
  match Keyword.ofSpelling? word with
  | some k => .keyword k
  | none => .ident word

/-- The word that begins with `c`. -/
def wordAt (c : Char) (cs : List Char) : Lexeme :=
  let tail := cs.takeWhile isWordPart
  .ofToken tail.length (wordKind (String.ofList (c :: tail)))

/-! ### Symbols -/

/-- The operators and punctuation marks that begin with a character, by what follows it; longer ones come first. -/
def symbolsFrom : Char → List (List Char × TokenKind)
  | '+' => [(['='], .operator .plusEq), ([], .operator .plus)]
  | '-' => [(['>'], .punctuation .arrow), (['='], .operator .minusEq), ([], .operator .minus)]
  | '*' => [(['='], .operator .starEq), ([], .operator .star)]
  | '/' => [(['='], .operator .slashEq), ([], .operator .slash)]
  | '%' => [(['='], .operator .percentEq), ([], .operator .percent)]
  | '!' => [(['='], .operator .notEq), ([], .operator .bang)]
  | '~' => [([], .operator .tilde)]
  | '^' => [(['='], .operator .caretEq), ([], .operator .caret)]
  | '&' => [(['&'], .operator .andAnd), (['='], .operator .ampEq), ([], .operator .amp)]
  | '|' => [(['|'], .operator .orOr), (['='], .operator .pipeEq), ([], .operator .pipe)]
  | '=' => [(['='], .operator .eqEq), ([], .operator .eq)]
  | '<' =>
    [(['<', '='], .operator .shlEq), (['>', '='], .operator .concatEq), (['<'], .operator .shl),
     (['>'], .operator .concat), (['='], .operator .ltEq), ([], .operator .lt)]
  | '>' => [(['>', '='], .operator .shrEq), (['>'], .operator .shr), (['='], .operator .gtEq), ([], .operator .gt)]
  | '.' =>
    [(['.', '.'], .punctuation .ellipsis), (['.', '='], .operator .dotDotEq), (['.'], .operator .dotDot),
     ([], .punctuation .dot)]
  | ':' => [([':'], .punctuation .colonColon), (['='], .operator .colonEq), ([], .punctuation .colon)]
  | ',' => [([], .punctuation .comma)]
  | ';' => [([], .punctuation .semicolon)]
  | '?' => [([], .punctuation .question)]
  | '@' => [([], .punctuation .atSign)]
  | '#' => [([], .punctuation .hash)]
  | '$' => [([], .punctuation .dollar)]
  | '(' => [([], .punctuation .lParen)]
  | ')' => [([], .punctuation .rParen)]
  | '[' => [([], .punctuation .lBracket)]
  | ']' => [([], .punctuation .rBracket)]
  | '{' => [([], .punctuation .lBrace)]
  | '}' => [([], .punctuation .rBrace)]
  | _ => []

/-- The symbol that begins with `c`, or a refusal of `c`. -/
def symbolAt (c : Char) (cs : List Char) : Lexeme :=
  match (symbolsFrom c).find? fun entry => entry.1.isPrefixOf cs with
  | some (tail, kind) => .ofToken tail.length kind
  | none => .refused 0 (.unexpectedCharacter c)

/-! ### Comments -/

/-- The number of characters up to and with the first `*/`. -/
def blockCommentLength? : List Char → Option Nat
  | [] => none
  | '*' :: '/' :: _ => some 2
  | _ :: cs => (blockCommentLength? cs).map (· + 1)

/-- What begins with a slash: a comment up to the end of the line, a comment up to `*/`, or a symbol. -/
def slashAt : List Char → Lexeme
  | '/' :: cs => .comment ((cs.takeWhile (· ≠ '\n')).length + 1)
  | '*' :: cs =>
    match blockCommentLength? cs with
    | some n => .comment (n + 1)
    | none => .refused (cs.length + 1) .unterminatedComment
  | cs => symbolAt '/' cs

/-! ### Numbers -/

/-- Whether a text is made of digits with single `_` between two of them. -/
def isDigitGroup (isDigit : Char → Bool) : List Char → Bool
  | [] => false
  | [c] => isDigit c
  | c :: '_' :: cs => isDigit c && isDigitGroup isDigit cs
  | c :: cs => isDigit c && isDigitGroup isDigit cs

/-- The digits and `_` at the head of a text. -/
def digitRun (isDigit : Char → Bool) (cs : List Char) : List Char := cs.takeWhile fun c => isDigit c || c = '_'

/-- Whether a character is a hexadecimal digit. -/
def isHexDigit (c : Char) : Bool := (digitValue? 16 c).isSome

/-- Whether a character is an octal digit. -/
def isOctalDigit (c : Char) : Bool := (digitValue? 8 c).isSome

/-- Whether a character is a binary digit. -/
def isBinaryDigit (c : Char) : Bool := (digitValue? 2 c).isSome

/-- A part of a number: how many characters it takes and whether it is well formed. -/
structure NumberPart where
  length : Nat
  valid : Bool
deriving DecidableEq

/-- The fractional part at the head of a text: a point with a digit behind it opens one. -/
def fractionPart? : List Char → Option NumberPart
  | '.' :: c :: cs =>
    if c.isDigit then
      let run := digitRun Char.isDigit (c :: cs)
      some ⟨run.length + 1, isDigitGroup Char.isDigit run⟩
    else none
  | _ => none

/-- The exponent at the head of a text: a letter `e` opens one, and a sign may follow. -/
def exponentPart? : List Char → Option NumberPart
  | e :: cs =>
    if e = 'e' || e = 'E' then
      let sign := match cs with
        | '+' :: _ | '-' :: _ => 1
        | _ => 0
      let run := digitRun Char.isDigit (cs.drop sign)
      some ⟨run.length + sign + 1, isDigitGroup Char.isDigit run⟩
    else none
  | [] => none

/-- The form of the number that begins with the digit `c`, and the part of it that its grammar covers. -/
def numberShape (c : Char) (cs : List Char) : NumberKind × NumberPart :=
  let radix (kind : NumberKind) (isDigit : Char → Bool) (digits : List Char) : NumberKind × NumberPart :=
    let run := digitRun isDigit digits
    (kind, ⟨run.length + 2, isDigitGroup isDigit run⟩)
  let decimal : NumberKind × NumberPart :=
    let whole := c :: digitRun Char.isDigit cs
    let fraction := fractionPart? (cs.drop (whole.length - 1))
    let length := whole.length + (fraction.map NumberPart.length).getD 0
    let exponent := exponentPart? (cs.drop (length - 1))
    let kind := if exponent.isSome then .scientific else if fraction.isSome then .float else .decimal
    (kind, ⟨length + (exponent.map NumberPart.length).getD 0,
      isDigitGroup Char.isDigit whole && (fraction.map NumberPart.valid).getD true &&
        (exponent.map NumberPart.valid).getD true⟩)
  match c, cs with
  | '0', 'x' :: ds | '0', 'X' :: ds => radix .hex isHexDigit ds
  | '0', 'o' :: ds | '0', 'O' :: ds => radix .octal isOctalDigit ds
  | '0', 'b' :: ds | '0', 'B' :: ds => radix .binary isBinaryDigit ds
  | _, _ => decimal

/-- The number that begins with the digit `c`.  Letters, digits and `_` that touch its end belong to the lexeme and
spoil it. -/
def numberAt (c : Char) (cs : List Char) : Lexeme :=
  let (kind, part) := numberShape c cs
  let glued := (cs.drop (part.length - 1)).takeWhile isWordPart
  let more := part.length - 1 + glued.length
  let text := String.ofList (c :: cs.take more)
  if part.valid && glued.isEmpty then .ofToken more (.number ⟨kind, text⟩) else .refused more (.malformedNumber text)

/-! ### Quoted literals -/

/-- What follows a backslash. -/
inductive EscapeRead
  /-- an escape and the number of its characters -/
  | read (escape : Escape) (length : Nat)
  /-- a mark with the digits that follow it, which are too few -/
  | short (digits : String) (length : Nat)
  | atEnd
deriving DecidableEq

/-- A mark with exactly `width` hexadecimal digits behind it. -/
def fixedEscape (width : Nat) (build : String → Escape) (cs : List Char) : EscapeRead :=
  let digits := (cs.take width).takeWhile isHexDigit
  if digits.length = width then .read (build (String.ofList digits)) (width + 1)
  else .short (String.ofList digits) (digits.length + 1)

/-- The escape at the head of a text that follows a backslash. -/
def escapeAt : List Char → EscapeRead
  | [] => .atEnd
  | 'x' :: cs => fixedEscape 2 .hex cs
  | 'u' :: cs => fixedEscape 4 .unicode cs
  | c :: cs =>
    if isOctalDigit c then
      let digits := c :: (cs.take 2).takeWhile isOctalDigit
      .read (.octal (String.ofList digits)) digits.length
    else .read (.simple c) 1

/-- One character or one escape of a string. -/
inductive StringItem
  | char (c : Char)
  | escape (escape : Escape)
deriving DecidableEq

/-- A piece more at the front: characters that follow each other make one piece of text. -/
def StringItem.consTo (item : StringItem) (parts : List (List Char ⊕ Escape)) : List (List Char ⊕ Escape) :=
  match item, parts with
  | .char c, .inl text :: rest => .inl (c :: text) :: rest
  | .char c, rest => .inl [c] :: rest
  | .escape e, rest => .inr e :: rest

/-- The pieces of a string that holds the given items. -/
def partsOf (items : List StringItem) : List StrPart :=
  (items.foldr StringItem.consTo []).map fun
    | .inl text => .text (String.ofList text)
    | .inr e => .escape e

/-- The body of a string: how many characters it takes, with the closing quote if it has one, its items, the faults
among its escapes, and whether it is closed.  Places count from the opening quote. -/
structure StringBody where
  length : Nat
  items : List StringItem
  faults : List Fault
  closed : Bool

/-- A body with something more in front of it. -/
def StringBody.push (n : Nat) (item : Option StringItem) (faults : List Fault) (b : StringBody) : StringBody :=
  { length := b.length + n, items := item.toList ++ b.items, faults := faults ++ b.faults, closed := b.closed }

/-- The body of a string whose next character is number `place` of the lexeme, in a text of at most `fuel`
characters. -/
def stringBodyFrom : (fuel place : Nat) → List Char → StringBody
  | 0, _, _ => ⟨0, [], [], false⟩
  | _ + 1, _, [] => ⟨0, [], [], false⟩
  | fuel + 1, place, c :: cs =>
    if c = '\n' then ⟨0, [], [], false⟩
    else if c = '"' then ⟨1, [], [], true⟩
    else if c = '\\' then
      match escapeAt cs with
      | .atEnd => ⟨1, [], [], false⟩
      | .read e n => (stringBodyFrom fuel (place + 1 + n) (cs.drop n)).push (1 + n) (some (.escape e)) []
      | .short digits n =>
        (stringBodyFrom fuel (place + 1 + n) (cs.drop n)).push (1 + n) none
          [⟨.shortEscape digits, place, place + 1 + n⟩]
    else (stringBodyFrom fuel (place + 1) cs).push 1 (some (.char c)) []

/-- The string whose opening quote stands before `cs`. -/
def stringAt (cs : List Char) : Lexeme :=
  let body := stringBodyFrom (cs.length + 1) 1 cs
  if body.closed then { more := body.length, token := some (.str (partsOf body.items)), faults := body.faults }
  else { more := body.length, faults := body.faults ++ [⟨.unterminated .string, 0, body.length + 1⟩] }

/-- The number of characters up to and with the next single quote of the line, or up to the end of the line. -/
def charRestLength : List Char → Nat
  | [] => 0
  | c :: cs => if c = '\n' then 0 else if c = '\'' then 1 else charRestLength cs + 1

/-- A character literal of which `taken` characters behind the quote make the content: it must close right there. -/
def closeChar (part : StrPart) (taken : Nat) (cs : List Char) : Lexeme :=
  match cs.drop taken with
  | '\'' :: _ => .ofToken (taken + 1) (.char part)
  | rest => .refused (taken + charRestLength rest) .charLength

/-- The character literal whose opening quote stands before `cs`. -/
def charAt : List Char → Lexeme
  | [] | '\n' :: _ => .refused 0 (.unterminated .character)
  | '\'' :: _ => .refused 1 .charLength
  | '\\' :: cs =>
    match escapeAt cs with
    | .atEnd => .refused 1 (.unterminated .character)
    | .read e n => closeChar (.escape e) (n + 1) ('\\' :: cs)
    | .short _ n =>
      { more := n + 1 + charRestLength (cs.drop n), faults := [⟨.shortCharEscape, 1, n + 2⟩] }
  | c :: cs => closeChar (.text (String.ofList [c])) 1 (c :: cs)

/-- The raw name whose opening backtick stands before `cs`. -/
def rawNameAt (cs : List Char) : Lexeme :=
  let raw := cs.takeWhile fun c => c ≠ '`' && c ≠ '\n'
  match cs.drop raw.length with
  | '`' :: _ =>
    if raw.isEmpty then .refused 1 .emptyRawName
    else .ofToken (raw.length + 1) (.rawName (String.ofList raw))
  | _ => .refused raw.length (.unterminated .rawName)

/-! ### Any lexeme -/

/-- The lexeme that begins with `c`. -/
def lexemeAt (c : Char) (cs : List Char) : Lexeme :=
  if isBlank c then .blank 0
  else if c = '\\' then
    match cs with
    | '\r' :: '\n' :: _ => .blank 2
    | '\n' :: _ | '\r' :: _ => .blank 1
    | _ => .refused 0 (.unexpectedCharacter c)
  else if c = '/' then slashAt cs
  else if c = '"' then stringAt cs
  else if c = '\'' then charAt cs
  else if c = '`' then rawNameAt cs
  else if c.isDigit then numberAt c cs
  else if isWordStart c then wordAt c cs
  else symbolAt c cs

/-- A lexeme with the text it was cut from. -/
structure Cut where
  taken : List Char
  lexeme : Lexeme

/-- The lexemes of a text of at most `fuel` characters. -/
def lexemesFrom : (fuel : Nat) → List Char → List Cut
  | 0, _ => []
  | _ + 1, [] => []
  | fuel + 1, c :: cs =>
    let lexeme := lexemeAt c cs
    ⟨c :: cs.take lexeme.more, lexeme⟩ :: lexemesFrom fuel (cs.drop lexeme.more)

/-- The lexemes of a text, in order. -/
def lexemes (text : List Char) : List Cut := lexemesFrom text.length text

theorem flatMap_taken_lexemesFrom {fuel : Nat} {text : List Char} (h : text.length ≤ fuel) :
    (lexemesFrom fuel text).flatMap Cut.taken = text := by
  induction fuel generalizing text with
  | zero => simp [List.length_eq_zero_iff.1 (Nat.le_zero.1 h), lexemesFrom]
  | succ fuel ih =>
    cases text with
    | nil => rfl
    | cons c cs =>
      have hd : (cs.drop (lexemeAt c cs).more).length ≤ fuel := by
        rw [List.length_drop]; simp only [List.length_cons] at h; omega
      simp [lexemesFrom, ih hd]

/-- The lexemes of a text cover it without gap or overlap. -/
theorem flatMap_taken_lexemes (text : List Char) : (lexemes text).flatMap Cut.taken = text :=
  flatMap_taken_lexemesFrom (Nat.le_refl _)

end ElleFrontEnd
