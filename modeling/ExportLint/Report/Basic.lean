import ExportLint.Audit.Result
import ExportLint.Module.Import
import ExportLint.Fix.Batch
import ExportLint.Issue.Group
import ExportLint.Config.Basic
import ExportLint.Failure
import ExportLint.Path.Basic

/-!
# Reports

A report shows those issues of a result that its options select, sorted by one key and grouped by
another, with counts over them, and what fixing did.
-/
namespace ExportLint.Report

inductive GroupKey where
  | file
  | kind
  | severity
  deriving DecidableEq, Repr

inductive SortKey where
  | file
  | kind
  | severity
  | line
  deriving DecidableEq, Repr

instance : Named GroupKey where
  all := [.file, .kind, .severity]
  name
    | .file => "file"
    | .kind => "type"
    | .severity => "severity"

instance : Named SortKey where
  all := [.file, .kind, .severity, .line]
  name
    | .file => "file"
    | .kind => "type"
    | .severity => "severity"
    | .line => "line"

structure Options where
  format : ReportFormat := .console
  outputPath : Option String := none
  details : Bool := true
  suggestions : Bool := true
  statistics : Bool := true
  groupBy : GroupKey := .file
  sortBy : SortKey := .file
  severities : Option (List Severity) := none
  deriving DecidableEq, Repr

/-- The key of an issue within a grouping. -/
def GroupKey.of : GroupKey → Issue → String
  | .file, i => i.file
  | .kind, i => i.kindName
  | .severity, i => i.severityName

/-- The first issue comes no later than the second. -/
def SortKey.le : SortKey → Issue → Issue → Bool
  | .file, a, b => decide (a.file ≤ b.file)
  | .kind, a, b => decide (a.kindName ≤ b.kindName)
  | .severity, a, b => decide (b.severity.rank ≤ a.severity.rank)
  | .line, a, b => decide (a.line.getD 0 ≤ b.line.getD 0)

/-- Issues in order. Those that are equal under the key keep their order. -/
def sortBy (key : SortKey) (is : List Issue) : List Issue := is.mergeSort key.le

/-- The key that a text names for a use. -/
def keyNamed {α : Type} [Named α] (use s : String) : Except Failure α :=
  match Named.ofName? s with
  | some k => .ok k
  | none => .error (.unknownKey use s)

/-- The choice that a text makes among the keys. -/
def choiceNamed {α : Type} [Named α] (choice s : String) : Except Failure α :=
  match Named.ofName? s with
  | some k => .ok k
  | none => .error (.notOneOf choice ((Named.all : List α).map Named.name))

/-- Counts over the issues of a report. -/
structure Statistics where
  totalFiles : Int
  totalExports : Int
  issues : Nat
  byKind : List (String × Nat)
  bySeverity : List (String × Nat)
  files : Nat
  /-- The kinds with the most issues, those with the same number by name. -/
  commonest : List (String × Nat)
  deriving DecidableEq, Repr

namespace Statistics

/-- A kind comes before one with fewer issues. -/
def ranksBefore (a b : String × Nat) : Bool :=
  decide (b.2 < a.2) || (a.2 == b.2 && decide (a.1 ≤ b.1))

def of (r : Audit.Result) (is : List Issue) : Statistics :=
  let byKind := Issue.counts (·.kindName) is
  { totalFiles := r.totalFiles
    totalExports := r.totalExports
    issues := is.length
    byKind
    bySeverity := Issue.counts (·.severityName) is
    files := (Issue.keys (·.file) is).length
    commonest := (byKind.mergeSort ranksBefore).take 5 }

def withSeverity (s : Statistics) (v : Severity) : Nat :=
  (s.bySeverity.lookup (Named.name v)).getD 0

def countsJson (counts : List (String × Nat)) : Json :=
  .obj (counts.map fun (k, n) => (k, Json.nat n))

def toJson (s : Statistics) : Json :=
  .obj [("totalFiles", .int s.totalFiles), ("totalExports", .int s.totalExports),
    ("totalIssues", Json.nat s.issues), ("issuesByType", countsJson s.byKind),
    ("issuesBySeverity", countsJson s.bySeverity), ("filesWithIssues", Json.nat s.files),
    ("mostCommonIssues", .arr (s.commonest.map fun (k, n) =>
      .obj [("type", .str k), ("count", Json.nat n)]))]

end Statistics

/-- What a report shows. -/
structure Content where
  result : Audit.Result
  fix : Option Fix.Batch
  options : Options
  /-- The selected issues in order. -/
  issues : List Issue
  deriving Repr

namespace Content

def of (r : Audit.Result) (fix : Option Fix.Batch) (o : Options) : Content where
  result := r
  fix
  options := o
  issues := sortBy o.sortBy (r.issues.filter fun i => o.severities.all (·.contains i.severity))

def groups (c : Content) : List (String × List Issue) :=
  Issue.groups c.options.groupBy.of c.issues

def statistics (c : Content) : Statistics := .of c.result c.issues

/-- The name of the project: its own, or the last step of its path. -/
def projectName (c : Content) : String :=
  if c.result.projectName.isEmpty then (Path.parse c.result.projectPath).name
  else c.result.projectName

def time (c : Content) : String := c.result.time.isoText

/-- The suggestion for an issue, where suggestions are shown. -/
def suggestion? (c : Content) (i : Issue) : Option String :=
  if c.options.suggestions then i.suggestion.filter fun s => !s.isEmpty else none

end Content

/-- The line of an issue, unless it is zero. -/
def lineText? (i : Issue) : Option String := (i.line.filter (· ≠ 0)).map toString

/-- Where an issue is: its file, and its line if there is one. -/
def placeText (i : Issue) : String := i.file ++ (lineText? i).elim "" (":" ++ ·)

def icon : Severity → String
  | .error => "✗"
  | .warning => "⚠"
  | .info => "ℹ"

end ExportLint.Report
