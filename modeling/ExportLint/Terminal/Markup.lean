import ExportLint.Failure
import ExportLint.Text.CaseMap
import ExportLint.Terminal.Shown

/-!
# Tags in text

Status lines and table cells hold tags for style: a name in square brackets that starts with a small
letter, a number sign, a slash or an at sign. Tags are not shown. One with a slash closes the last
open tag of its name, or just the last one. A backslash before a bracket makes it an ordinary one.
-/
namespace ExportLint.Terminal.Markup

inductive Piece where
  | text (cs : List Char)
  /-- A tag, by what stands between its brackets, and where it starts. -/
  | tag (name : List Char) (start : Nat)
  deriving DecidableEq, Repr

def startsName (c : Char) : Bool :=
  Text.Letter.isAsciiLower c || c == '#' || c == '/' || c == '@'

def inName (c : Char) : Bool := c != '[' && c != ']'

/-- The name of the tag at the start of a text. -/
def nameAt? : List Char → Option (List Char)
  | '[' :: c :: cs =>
    if startsName c && (cs.dropWhile inName).head? == some ']' then some (c :: cs.takeWhile inName)
    else none
  | _ => none

/-- Backslashes before a bracket do not show. -/
def unescape : List Char → List Char
  | '\\' :: '[' :: cs => '[' :: unescape cs
  | c :: cs => c :: unescape cs
  | [] => []

/-- The pieces before and at a tag: the text so far, half of the backslashes before the tag, and the
tag itself, or its text if the last backslash takes its meaning away. -/
def atTag (before name : List Char) (start : Nat) : List Piece :=
  let n := (before.reverse.takeWhile (· == '\\')).length
  let plain := before.take (before.length - n)
  let slashes := List.replicate (n / 2) '\\'
  [.text (unescape plain), .text slashes,
    if n % 2 = 0 then .tag name start else .text ('[' :: name ++ [']'])]

/-- The pieces of a text from a position on, given what stands since the last tag. The characters of
a tag that was taken are skipped. -/
def piecesFrom (position skip : Nat) (before : List Char) : List Char → List Piece
  | [] => [.text (unescape before)]
  | c :: cs =>
    match skip with
    | n + 1 => piecesFrom (position + 1) n [] cs
    | 0 =>
      match nameAt? (c :: cs) with
      | some name =>
        atTag before name position ++ piecesFrom (position + 1) (name.length + 1) [] cs
      | none => piecesFrom (position + 1) 0 (before ++ [c]) cs

def pieces (cs : List Char) : List Piece := piecesFrom 0 0 [] cs

/-- The name of a tag without its parameters. -/
def nameOf (tag : List Char) : String := String.ofList (tag.takeWhile (· ≠ '='))

/-- The name under which a tag is looked up. -/
def lookupName (s : String) : String := Text.CaseMap.lower (Text.trimString s)

/-- The open tags behind a tag, the last one first; none if it closes a tag that is not open. -/
def follow (opened : List String) (tag : String) : Option (List String) :=
  match tag.toList with
  | '/' :: cs =>
    let name := lookupName (String.ofList cs)
    if name.isEmpty then opened.head?.map fun _ => opened.tail
    else if opened.contains name then some (opened.erase name) else none
  | _ => some (lookupName tag :: opened)

/-- A closing tag as messages name it: without a name it is just the slash. -/
def faultyTag (tag : List Char) : String :=
  if lookupName (nameOf (tag.drop 1)) = "" then "/" else String.ofList tag

def textOf (opened : List String) : List Piece → Except Failure (List Char)
  | [] => .ok []
  | .text cs :: rest => do return cleaned cs ++ (← textOf opened rest)
  | .tag name start :: rest =>
    match follow opened (nameOf name) with
    | some opened => textOf opened rest
    | none => .error (.badMarkup (faultyTag name) start)

/-- What is shown of a text with tags. -/
def shown (s : String) : Except Failure String := do
  let cs := s.toList
  if cs.contains '[' then return String.ofList (expandTabs 0 (← textOf [] (pieces cs)))
  return Terminal.shown s

end ExportLint.Terminal.Markup
