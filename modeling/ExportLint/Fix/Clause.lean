import ExportLint.Text.CaseMap
import ExportLint.Text.Lines

/-!
# Clauses on one line

A line that holds a whole clause of an export or an import: what comes before the braces, the
specifiers between them, and the rest. Reading a clause forgets how it is spaced.
-/
namespace ExportLint.Fix

inductive ClauseKind where
  | exporting
  | importing
  deriving DecidableEq, Repr

structure Clause where
  indent : List Char
  kind : ClauseKind
  typeOnly : Bool
  specifiers : List (List Char)
  /-- What follows the braces, without the blanks around it. -/
  rest : List Char
  /-- The carriage returns at the end. -/
  ending : List Char
  deriving DecidableEq, Repr

namespace Clause

open Text (dropTrailing joinBy splitWhere trim)
open Text.Letter (isBlank)

def keyword : ClauseKind → List Char
  | .exporting => "export".toList
  | .importing => "import".toList

/-- The word for types, as it stands in front of names. -/
def typeWord : List Char := "type".toList

/-- The text behind a lead. -/
def behind? (lead cs : List Char) : Option (List Char) :=
  if lead.isPrefixOf cs then some (cs.drop lead.length) else none

def readKind? (cs : List Char) : Option (ClauseKind × List Char) :=
  ((behind? (keyword .exporting) cs).map (ClauseKind.exporting, ·)).or
    ((behind? (keyword .importing) cs).map (ClauseKind.importing, ·))

/-- Behind the word for types, if blanks and the word come. -/
def readType (cs : List Char) : Bool × List Char :=
  match cs with
  | c :: _ =>
    if isBlank c then
      match behind? typeWord (cs.dropWhile isBlank) with
      | some rest => (true, rest)
      | none => (false, cs)
    else (false, cs)
  | [] => (false, [])

def isBrace (c : Char) : Bool := c == '\x7b' || c == '\x7d'

/-- The specifiers between commas, without the blanks around them. Empty ones do not count. -/
def specifiersOf (body : List Char) : List (List Char) :=
  ((splitWhere (· == ',') body).map trim).filter fun s => !s.isEmpty

/-- The clause on a line. Behind it, one line feed at the end counts as nothing. -/
def read? (line : List Char) : Option Clause := do
  let content := dropTrailing '\r' line
  let indent := content.takeWhile isBlank
  let (kind, cs) ← readKind? (content.dropWhile isBlank)
  let (typeOnly, cs) := readType cs
  let inside ← behind? ['\x7b'] (cs.dropWhile isBlank)
  let after ← behind? ['\x7d'] (inside.dropWhile fun c => !isBrace c)
  let rest := after.takeWhile (· != '\n')
  guard (after.drop rest.length = [] ∨ after.drop rest.length = ['\n'])
  return { indent, kind, typeOnly, specifiers := specifiersOf (inside.takeWhile fun c => !isBrace c)
           rest := trim rest, ending := line.drop content.length }

/-- A specifier without a word for types of its own. -/
def plain (s : List Char) : List Char :=
  match behind? typeWord s with
  | some (c :: cs) => if isBlank c then (c :: cs).dropWhile isBlank else s
  | _ => s

/-- What specifiers are sorted by: their names, in lower case. -/
def sortKey (s : List Char) : String := Text.CaseMap.lower (String.ofList (plain s))

def sorted (c : Clause) : Clause :=
  { c with specifiers := c.specifiers.mergeSort fun a b => decide (sortKey a ≤ sortKey b) }

/-- The clause as one of types or not. Under the word for types no specifier has one. -/
def withType (typeOnly : Bool) (c : Clause) : Clause :=
  { c with typeOnly, specifiers := if typeOnly then c.specifiers.map plain else c.specifiers }

/-- Specifiers with commas and blanks between them. -/
def renderBody : List (List Char) → List Char
  | [] => ['\x7b', '\x7d']
  | ss => ['\x7b', ' '] ++ [',', ' '].intercalate ss ++ [' ', '\x7d']

def renderRest : List Char → List Char
  | [] => []
  | ';' :: cs => ';' :: cs
  | cs => ' ' :: cs

def render (c : Clause) : List Char :=
  c.indent ++ keyword c.kind ++ (if c.typeOnly then ' ' :: typeWord else []) ++
    ' ' :: renderBody c.specifiers ++ renderRest c.rest ++ c.ending

end Clause

/-- A line with its clause spaced evenly, as one of types if that is asked for, and with its
specifiers sorted if that is. -/
def tidyClause (sort : Bool) (typeOnly : Option Bool) (line : String) : Option String :=
  (Clause.read? line.toList).map fun c =>
    let c := c.withType (typeOnly.getD c.typeOnly)
    String.ofList (if sort then c.sorted else c).render

end ExportLint.Fix
