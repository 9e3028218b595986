import ExportLint.Syntax.Node

/-!
# Reading source text

A cursor is the text that is left, with its offset in bytes. Blanks and comments may stand between
any two tokens. A parser takes tokens off a cursor or fails; what fails has taken nothing.
-/
namespace ExportLint.Syntax

structure Cursor where
  rest : List Char
  /-- The bytes in front of the rest. -/
  offset : Nat
  /-- Where the last token ended. -/
  last : Nat
  deriving Repr

/-- White space in general, and marks that take no space. -/
def isBlank (c : Char) : Bool :=
  let n := c.toNat
  (9 ≤ n && n ≤ 13) || n == 32 || n == 0x85 || n == 0xA0 || n == 0x1680 ||
    (0x2000 ≤ n && n ≤ 0x200B) || n == 0x2028 || n == 0x2029 || n == 0x202F || n == 0x205F ||
    n == 0x2060 || n == 0x3000 || n == 0xFEFF

def isLineEnd (c : Char) : Bool :=
  c == '\n' || c == '\r' || c.toNat == 0x2028 || c.toNat == 0x2029

namespace Cursor

def ofText (cs : List Char) : Cursor := ⟨cs, 0, 0⟩

/-- The cursor behind the characters that satisfy `p`. -/
def dropWhile (c : Cursor) (p : Char → Bool) : Cursor := go c.offset c.rest
where
  go (offset : Nat) : List Char → Cursor
    | x :: xs => if p x then go (offset + x.utf8Size) xs else ⟨x :: xs, offset, c.last⟩
    | [] => ⟨[], offset, c.last⟩

def skipBlanks (c : Cursor) : Cursor := c.dropWhile isBlank

/-- The cursor behind a given text. -/
def drop? (c : Cursor) (lead : List Char) : Option Cursor := go lead c.offset c.rest
where
  go : List Char → Nat → List Char → Option Cursor
    | [], offset, rest => some ⟨rest, offset, c.last⟩
    | a :: as, offset, x :: xs => if a = x then go as (offset + x.utf8Size) xs else none
    | _ :: _, _, [] => none

/-- Behind the end of a block comment, if it has one. -/
def blockEnd? (last : Nat) : Nat → List Char → Option Cursor
  | offset, '*' :: '/' :: rest => some ⟨rest, offset + 2, last⟩
  | offset, x :: rest => blockEnd? last (offset + x.utf8Size) rest
  | _, [] => none

/-- The cursor behind a comment that starts here. -/
def comment? (c : Cursor) : Option Cursor :=
  match c.rest with
  | '/' :: '/' :: _ => some (c.dropWhile fun x => !isLineEnd x)
  | '/' :: '*' :: rest => blockEnd? c.last (c.offset + 2) rest
  | _ => none

/-- A stretch of bytes. -/
structure Span where
  start : Nat
  stop : Nat
  deriving DecidableEq, Repr

/-- Skip blanks and comments, and say where the comments stand. -/
def skipTrivia (c : Cursor) : List Span × Cursor := go (c.rest.length + 1) c.skipBlanks
where
  go : Nat → Cursor → List Span × Cursor
    | 0, c => ([], c)
    | fuel + 1, c =>
      match c.comment? with
      | none => ([], c)
      | some d =>
        let (more, e) := go fuel d.skipBlanks
        (⟨c.offset, d.offset⟩ :: more, e)

/-- The cursor at the next token. -/
def next (c : Cursor) : Cursor := c.skipTrivia.2

end Cursor

/-- Characters that no word holds. -/
def isMark (c : Char) : Bool :=
  ":;`\"'@#.,|^&<=>+-*/\\%?!~()[]\x7b\x7d".toList.contains c

def isDecimalDigit (c : Char) : Bool := '0' ≤ c && c ≤ '9'

def isHexDigit (c : Char) : Bool :=
  isDecimalDigit c || ('a' ≤ c && c ≤ 'f') || ('A' ≤ c && c ≤ 'F')

/-- Characters within a word. -/
def isWordChar (c : Char) : Bool := 32 ≤ c.toNat && !isBlank c && !isMark c

/-- Behind the escape of a code point, whose backslash is read already. -/
def codeEscape? : List Char → Option (List Char × List Char)
  | 'u' :: '\x7b' :: rest =>
    let digits := rest.takeWhile isHexDigit
    match rest.dropWhile isHexDigit with
    | '\x7d' :: after =>
      if digits.isEmpty then none else some ('u' :: '\x7b' :: digits ++ ['\x7d'], after)
    | _ => none
  | 'u' :: a :: b :: c :: d :: rest =>
    if [a, b, c, d].all isHexDigit then some (['u', a, b, c, d], rest) else none
  | _ => none

/-- The longest word at the start of a text. A word does not start with a digit. -/
def wordOf : Nat → Bool → List Char → List Char
  | 0, _, _ => []
  | fuel + 1, first, cs =>
    match cs with
    | '\\' :: rest =>
      match codeEscape? rest with
      | some (escape, after) => '\\' :: escape ++ wordOf fuel false after
      | none => []
    | c :: rest =>
      if isWordChar c && !(first && isDecimalDigit c) then c :: wordOf fuel false rest else []
    | [] => []

abbrev Parser := StateT Cursor Option

/-- Parts of a node in their order. -/
abbrev Parts := Parser (List Node)

def byteLength (cs : List Char) : Nat := cs.foldl (fun n c => n + c.utf8Size) 0

/-- Take characters off the cursor, as a token of a kind. -/
def takeToken (kind : String) (named : Bool) (text : List Char) : Parser Node := fun c =>
  match c.drop? text with
  | some d =>
    some ({ kind, named, start := c.offset, stop := d.offset }, { d with last := d.offset })
  | none => none

/-- Look at the text of the next token without taking it. -/
def peek : Parser (List Char) := fun c => some (c.next.rest, c)

/-- Skip to the next token. -/
def toNext : Parser Unit := fun c => some ((), c.next)

/-- A mark. -/
def mark (s : String) : Parser Node := do
  toNext
  takeToken s false s.toList

/-- The next word, as a node of a kind. -/
def word (kind : String) : Parser Node := do
  toNext
  let c ← get
  match wordOf (c.rest.length + 1) true c.rest with
  | [] => failure
  | w => takeToken kind true w

/-- The next word, if a word comes next. -/
def peekWord : Parser (Option String) := do
  let cs ← peek
  match wordOf (cs.length + 1) true cs with
  | [] => pure none
  | w => pure (some (String.ofList w))

/-- The given word. -/
def keyword (s : String) : Parser Node := do
  if (← peekWord) = some s then
    toNext
    takeToken s false s.toList
  else failure

/-- One of the given words. -/
def oneWordOf (ws : List String) : Parser Node := do
  match ← peekWord with
  | some w => if ws.contains w then keyword w else failure
  | none => failure

/-- A parser that is given up on unless a condition holds. -/
def require (b : Bool) : Parser Unit := if b then pure () else failure

/-- The next token starts with a text. -/
def nextIs (s : String) : Parser Bool := do return s.toList.isPrefixOf (← peek)

/-- A parser that must not succeed. -/
def absent {α : Type} (p : Parser α) : Parser Unit := fun c =>
  match p c with
  | some _ => none
  | none => some ((), c)

def one (p : Parser Node) : Parts := do return [← p]

def nothing : Parts := pure []

/-- A node that fills a field. -/
def fill (field : String) (p : Parser Node) : Parts := do
  let n ← p
  return [{ n with field := some field }]

def orElse {α : Type} (p q : Parser α) : Parser α := fun c =>
  match p c with
  | some r => some r
  | none => q c

/-- The first alternative that succeeds. -/
def firstOf {α : Type} : List (Parser α) → Parser α
  | [] => failure
  | p :: ps => orElse p (firstOf ps)

def optionally (p : Parts) : Parts := orElse p nothing

/-- Parts that a word opens: none without the word, and no fewer than all with it. -/
def openedClause (w : String) (p : Parts) : Parts := do
  if (← peekWord) = some w then p else nothing

/-- Parts one after the other. -/
def inOrder : List Parts → Parts
  | [] => nothing
  | p :: ps => do return (← p) ++ (← inOrder ps)

def repeatUpTo (p : Parts) : Nat → Parts
  | 0 => nothing
  | n + 1 => fun c =>
    match p c with
    | none => some ([], c)
    | some (ns, d) =>
      if d.rest.length < c.rest.length then
        (fun r => (ns ++ r.1, r.2)) <$> repeatUpTo p n d
      else some (ns, d)

/-- Parts as often as they come. -/
def many (p : Parts) : Parts := do repeatUpTo p ((← get).rest.length)

/-- Parts with a mark between them, at least once. -/
def separated (separator : String) (p : Parts) : Parts :=
  inOrder [p, many (inOrder [one (mark separator), p])]

/-- Parts with commas between them, any of which may be missing. -/
def sparse (p : Parts) : Parts :=
  inOrder [optionally p, many (inOrder [one (mark ","), optionally p])]

/-- A node from its parts, which are not empty. -/
def build (kind : String) (parts : Parts) : Parser Node := do
  match ← parts with
  | [] => failure
  | n :: ns => do return { kind, start := n.start, stop := (← get).last, children := n :: ns }

end ExportLint.Syntax
