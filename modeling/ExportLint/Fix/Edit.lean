import ExportLint.Issue.Basic

/-!
# Edits

An edit changes one line of a file: it replaces the line, drops it, or puts a new line behind it.
-/
namespace ExportLint.Fix

inductive EditKind where
  | rename
  | add
  | remove
  | reorder
  | format
  deriving DecidableEq, Repr

/-- How much an edit may break. -/
inductive Risk where
  | low
  | medium
  | high
  deriving DecidableEq, Repr

/-- The groups of issues that may be chosen for fixing. -/
inductive Category where
  | naming
  | duplicates
  | missing
  | ordering
  | formatting
  deriving DecidableEq, Repr

instance : Named EditKind where
  all := [.rename, .add, .remove, .reorder, .format]
  name
    | .rename => "rename"
    | .add => "add"
    | .remove => "remove"
    | .reorder => "reorder"
    | .format => "format"

instance : Named Risk where
  all := [.low, .medium, .high]
  name
    | .low => "low"
    | .medium => "medium"
    | .high => "high"

instance : Named Category where
  all := [.naming, .duplicates, .missing, .ordering, .formatting]
  name
    | .naming => "naming"
    | .duplicates => "duplicates"
    | .missing => "missing"
    | .ordering => "ordering"
    | .formatting => "formatting"

namespace EditKind

/-- Edits that overwrite or drop a line. -/
def replacesLine (k : EditKind) : Bool := k != .add

def risk : EditKind → Risk
  | .format | .reorder | .add => .low
  | .rename | .remove => .medium

end EditKind

def Risk.rank : Risk → Nat
  | .low => 1
  | .medium => 2
  | .high => 3

/-- The group of an issue. Issues that belong to none are not fixed. -/
def Category.ofIssue? : IssueKind → Option Category
  | .naming => some .naming
  | .duplicateExport => some .duplicates
  | .missingExport => some .missing
  | .unusedExport => some .ordering
  | .typeMismatch => some .formatting
  | .cycle | .importMismatch | .accessViolation => none

/-- A change of one line. Lines count from one; a new line goes behind its line, and behind line
zero it goes to the top. -/
structure Edit where
  kind : EditKind
  file : String
  line : Option Int := none
  /-- What the line must hold for the edit to apply. -/
  expected : Option String := none
  text : String
  description : String
  issue : Option String := none
  oldName : Option String := none
  newName : Option String := none
  deriving DecidableEq, Repr

namespace Edit

def risk (e : Edit) : Risk := e.kind.risk

def read : Schema.Reader Edit :=
  Schema.record "FixOperation" fun ms =>
    Edit.mk <$> Schema.field ms "type" Schema.named
      <*> Schema.field ms "filePath" Schema.string
      <*> Schema.fieldOr ms "lineNumber" none (Schema.optional Schema.integer)
      <*> Schema.fieldOr ms "originalText" none (Schema.optional Schema.string)
      <*> Schema.field ms "newText" Schema.string
      <*> Schema.field ms "description" Schema.string
      <*> Schema.fieldOr ms "issueId" none (Schema.optional Schema.string)
      <*> Schema.fieldOr ms "oldName" none (Schema.optional Schema.string)
      <*> Schema.fieldOr ms "newName" none (Schema.optional Schema.string)

def members (e : Edit) : Json.Members :=
  [("type", .str (Named.name e.kind)), ("filePath", .str e.file)] ++
    Json.optional "lineNumber" (e.line.map .int) ++
    Json.optional "originalText" (e.expected.map .str) ++
    [("newText", .str e.text), ("description", .str e.description)] ++
    Json.optional "issueId" (e.issue.map .str) ++ Json.optional "oldName" (e.oldName.map .str) ++
    Json.optional "newName" (e.newName.map .str)

def toJson (e : Edit) : Json := .obj e.members

end Edit

end ExportLint.Fix
