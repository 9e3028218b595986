import ExportLint.Syntax.Cursor

/-!
# Ends of statements

A statement ends with a semicolon, and a line break may stand for one: unless the next line goes on
with a mark that cannot start a statement. A comment behind the last token of such a statement on
the same line belongs to it.
-/
namespace ExportLint.Syntax

/-- What may follow a construct. -/
inductive Ending where
  /-- No statement may end here. -/
  | closed
  /-- A statement may end here, and no operator may follow. -/
  | plain
  /-- A statement may end here, or an operator may follow. -/
  | operand
  /-- A statement or a block may follow. -/
  | signature
  deriving DecidableEq, Repr

/-- White space that leaves room for a break. -/
def isSpace (c : Char) : Bool :=
  let n := c.toNat
  (9 ≤ n && n ≤ 13) || n == 32 || n == 0x1680 || (0x2000 ≤ n && n ≤ 0x2006) ||
    (0x2008 ≤ n && n ≤ 0x200A) || n == 0x2028 || n == 0x2029 || n == 0x205F || n == 0x3000

def isBreak (c : Char) : Bool := c == '\n' || c.toNat == 0x2028 || c.toNat == 0x2029

/-- The text behind spaces and comments: none if a slash comes that starts no comment. -/
def pastComments : Nat → List Char → Option (List Char)
  | 0, _ => none
  | fuel + 1, cs =>
    match cs.dropWhile isSpace with
    | '/' :: '/' :: rest => pastComments fuel (rest.dropWhile fun c => !isBreak c)
    | '/' :: '*' :: rest =>
      match Cursor.blockEnd? 0 0 rest with
      | some c => pastComments fuel c.rest
      | none => some []
    | '/' :: _ => none
    | rest => some rest

def isLetter (c : Char) : Bool := Text.Letter.isAsciiAlpha c

/-- A new line that starts like this starts a statement. -/
def startsStatement (e : Ending) (cs : List Char) : Bool :=
  match cs with
  | [] => true
  | '+' :: rest => rest.head? == some '+'
  | '-' :: rest => rest.head? == some '-'
  | '!' :: rest => rest.head? != some '='
  | 'i' :: 'n' :: rest =>
    match rest with
    | c :: _ =>
      isLetter c && !("stanceof".toList.isPrefixOf rest && !(rest[8]?.any isLetter))
    | [] => false
  | c :: _ =>
    if "`,.;*%><=?^|&/:".toList.contains c then false
    else if c = '\x7b' then e != .signature
    else if c = '(' ∨ c = '[' then e != .operand
    else true

/-- A statement may end before a closing brace, unless a colon follows it that no operator could
explain. -/
def endsAtBrace (e : Ending) (rest : List Char) : Bool :=
  (rest.dropWhile isSpace).head? != some ':' || e == .operand

/-- A statement may end right here without a semicolon. -/
def endsHere (e : Ending) (cs : List Char) : Bool :=
  let line := cs.dropWhile fun c => isSpace c && !isBreak c
  match line with
  | [] => true
  | '\x7d' :: rest => endsAtBrace e rest
  | '/' :: _ =>
    match pastComments (line.length + 1) line with
    | some ('\x7d' :: rest) => endsAtBrace e rest
    | _ => false
  | c :: rest =>
    isBreak c &&
      match pastComments (rest.length + 1) rest with
      | some next => startsStatement e next
      | none => false

/-- The cursor at the end of a statement that no semicolon ends: behind the comments on its line. -/
def breakAt? (e : Ending) : Nat → Cursor → Option Cursor
  | 0, _ => none
  | fuel + 1, c =>
    if e = .closed then none
    else if endsHere e c.rest then some { c with last := c.offset }
    else
      match c.skipBlanks.comment? with
      | some d => breakAt? e fuel { d with last := d.offset }
      | none => none

/-- A statement may end here without a semicolon. -/
def atBreak (e : Ending) : Parser Bool := fun c =>
  some ((breakAt? e (c.rest.length + 1) c).isSome, c)

/-- A break that stands for a semicolon. -/
def lineBreak (e : Ending) : Parts := fun c =>
  match breakAt? e (c.rest.length + 1) c with
  | some d => some ([], d)
  | none => none

/-- The end of a statement. -/
def semicolon (e : Ending) : Parts := orElse (lineBreak e) (one (mark ";"))

end ExportLint.Syntax
