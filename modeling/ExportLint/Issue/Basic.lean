import ExportLint.Module.Location

/-!
# Issues

A finding is one inconsistency that a rule reports; with a number it is an issue. The metadata is
free-form.
-/
namespace ExportLint

inductive IssueKind where
  | naming
  | cycle
  | unusedExport
  | importMismatch
  | duplicateExport
  | missingExport
  | typeMismatch
  | accessViolation
  deriving DecidableEq, Repr

inductive Severity where
  | error
  | warning
  | info
  deriving DecidableEq, Repr

instance : Named IssueKind where
  all := [.naming, .cycle, .unusedExport, .importMismatch, .duplicateExport, .missingExport,
    .typeMismatch, .accessViolation]
  name
    | .naming => "naming-inconsistency"
    | .cycle => "circular-dependency"
    | .unusedExport => "unused-export"
    | .importMismatch => "import-mismatch"
    | .duplicateExport => "duplicate-export"
    | .missingExport => "missing-export"
    | .typeMismatch => "type-export-mismatch"
    | .accessViolation => "accessibility-violation"

namespace Severity

instance : Named Severity where
  all := [.error, .warning, .info]
  name
    | .error => "error"
    | .warning => "warning"
    | .info => "info"

/-- Errors rank above warnings, and warnings above information. -/
def rank : Severity → Nat
  | .error => 3
  | .warning => 2
  | .info => 1

def title : Severity → String
  | .error => "Error"
  | .warning => "Warning"
  | .info => "Info"

end Severity

structure Finding where
  kind : IssueKind
  severity : Severity
  file : String
  message : String
  suggestion : Option String := none
  autoFixable : Bool := false
  relatedFiles : List String := []
  location : Option Location := none
  rule : Option String := none
  metadata : Json.Members := []
  deriving Repr

structure Issue extends Finding where
  id : String
  deriving Repr

namespace Issue

/-- Findings with numbers from one on. -/
def numbered (fs : List Finding) : List Issue :=
  fs.zipIdx.map fun (f, n) => ⟨f, "EXP-" ++ Text.padZero 4 (n + 1)⟩

def line (i : Issue) : Option Int := i.location.map (·.startLine)

/-- The file that the issue is at. -/
def place (i : Issue) : String :=
  match i.location with
  | some l => l.file
  | none => i.file

def read : Schema.Reader Issue :=
  Schema.record "ConsistencyIssue" fun ms =>
    (fun id kind severity file message suggestion autoFixable relatedFiles location rule metadata =>
      { id, kind, severity, file, message, suggestion, autoFixable, relatedFiles, location, rule,
        metadata }) <$> Schema.field ms "id" Schema.string
      <*> Schema.field ms "type" Schema.named
      <*> Schema.field ms "severity" Schema.named
      <*> Schema.field ms "filePath" Schema.string
      <*> Schema.field ms "message" Schema.string
      <*> Schema.fieldOr ms "suggestion" none (Schema.optional Schema.string)
      <*> Schema.fieldOr ms "autoFixable" false Schema.boolean
      <*> Schema.fieldOr ms "relatedFiles" [] (Schema.list Schema.string)
      <*> Schema.fieldOr ms "sourceLocation" none (Schema.optional Location.read)
      <*> Schema.fieldOr ms "rule" none (Schema.optional Schema.string)
      <*> Schema.fieldOr ms "metadata" [] Schema.free

def toJson (i : Issue) : Json :=
  .obj <| [("id", .str i.id), ("type", .str (Named.name i.kind)),
    ("severity", .str (Named.name i.severity)), ("filePath", .str i.file),
    ("message", .str i.message)] ++ Json.optional "suggestion" (i.suggestion.map .str) ++
    [("autoFixable", .bool i.autoFixable), ("relatedFiles", Json.strings i.relatedFiles)] ++
    Json.optional "sourceLocation" (i.location.map (·.toJson)) ++
    Json.optional "rule" (i.rule.map .str) ++ [("metadata", .obj i.metadata)]

end Issue

end ExportLint
