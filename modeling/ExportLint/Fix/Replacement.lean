import ExportLint.Failure
import ExportLint.Text.Lines

/-!
# Replacing a name

The text that replaces a name may refer to the name and hold escapes. A name is replaced where it
stands for itself: it is no part of a longer one.
-/
namespace ExportLint.Fix.Replacement

open Text.Letter (isAsciiAlpha isAsciiDigit isDigit isWord isZeroDigit)

def isOctalDigit (c : Char) : Bool := '0' ≤ c && c ≤ '7'

def octalValue (cs : List Char) : Nat := cs.foldl (fun n c => 8 * n + (c.toNat - 48)) 0

def isIdentifier (cs : List Char) : Bool :=
  match cs with
  | c :: rest => isWord c && !isDigit c && rest.all isWord
  | [] => false

/-- A number that is zero: with blanks around it, a sign, and underscores between digits at most. -/
def isZero (cs : List Char) : Bool :=
  let digits := match Text.trim cs with
    | '+' :: rest => rest
    | '-' :: rest => rest
    | rest => rest
  (Text.splitWhere (· == '_') digits).all fun g => !g.isEmpty && g.all isZeroDigit

/-- What a name of a group stands for. There is only the whole match, which has the number zero. -/
def groupText (whole name : List Char) : Except Failure (List Char) :=
  if isIdentifier name then .error .nothingThere
  else if isZero name then .ok whole
  else .error .badPattern

/-- What stands for a control character. -/
def controlChar? : Char → Option Char
  | 'a' => some '\x07'
  | 'b' => some '\x08'
  | 'f' => some '\x0c'
  | 'n' => some '\n'
  | 'r' => some '\r'
  | 't' => some '\t'
  | 'v' => some '\x0b'
  | '\\' => some '\\'
  | _ => none

/-- What an escape stands for, and what comes behind it. -/
def readEscape (whole : List Char) : List Char → Except Failure (List Char × List Char)
  | [] => .error .badPattern
  | 'g' :: '<' :: cs =>
    let name := cs.takeWhile (· ≠ '>')
    match cs.drop name.length with
    -- An escape that lacks its character is found before the name is looked up.
    | [_, '\\'] => .error .badPattern
    | _ :: rest => (groupText whole name).map (·, rest)
    | [] => .error .badPattern
  | '0' :: cs =>
    let digits := (cs.take 2).takeWhile isOctalDigit
    .ok ([Char.ofNat (octalValue digits % 256)], cs.drop digits.length)
  | c :: cs =>
    if isAsciiDigit c then
      match c :: cs with
      | [] => .error .badPattern
      | ds =>
        let digits := ds.take 3
        if digits.length = 3 ∧ digits.all isOctalDigit ∧ octalValue digits < 256 then
          .ok ([Char.ofNat (octalValue digits)], ds.drop 3)
        else .error .badPattern
    else
      match controlChar? c with
      | some control => .ok ([control], cs)
      | none => if isAsciiAlpha c then .error .badPattern else .ok (['\\', c], cs)

def expandFrom (whole : List Char) : Nat → List Char → Except Failure (List Char)
  | 0, _ => .ok []
  | _ + 1, [] => .ok []
  | fuel + 1, '\\' :: cs => do
    let (text, rest) ← readEscape whole cs
    return text ++ (← expandFrom whole fuel rest)
  | fuel + 1, c :: cs => do return c :: (← expandFrom whole fuel cs)

/-- The text that replaces a name. -/
def expand (whole template : List Char) : Except Failure (List Char) :=
  expandFrom whole (template.length + 1) template

/-- Characters of names. -/
def isNameChar (c : Char) : Bool := isWord c || c == '$'

/-- Replace a name where it first stands for itself. -/
def replaceFirst (old new : List Char) (before : Option Char) : List Char → List Char
  | [] => []
  | c :: cs =>
    if !before.any isNameChar && old.isPrefixOf (c :: cs) &&
        !((c :: cs).drop old.length).head?.any isNameChar then
      new ++ (c :: cs).drop old.length
    else c :: replaceFirst old new (some c) cs

end ExportLint.Fix.Replacement
