import ExportLint.Report.Basic
import ExportLint.Text.Lines

/-!
# Reports as Markdown

Each group has a table with a row for every issue, and its suggestions in a list behind it.
-/
namespace ExportLint.Report.Markdown

/-- A text in a cell of a table: bars are escaped, and line feeds become blanks. -/
def cell (text : String) : String :=
  String.ofList (text.toList.flatMap fun c =>
    if c = '|' then ['\\', '|'] else if c = '\n' then [' '] else [c])

/-- Code within a line. -/
def code (text : String) : String := "\x60" ++ text ++ "\x60"

/-- A row of a table from the texts of its cells. -/
def row (cells : List String) : String := "| " ++ " | ".intercalate cells ++ " |"

def title (c : Content) : List String :=
  ["# Export Consistency Report", "", "**Project:** " ++ c.projectName,
    "**Generated:** " ++ c.time, ""]

def statistics (s : Statistics) : List String :=
  ["## Statistics", "", "| Metric | Value |", "|--------|-------|",
    row ["Total Files", toString s.totalFiles], row ["Total Exports", toString s.totalExports],
    row ["Total Issues", toString s.issues], row ["Files With Issues", toString s.files]] ++
    ((Named.all : List Severity).map fun v => row [v.title, toString (s.withSeverity v)]) ++ [""] ++
    if s.commonest.isEmpty then []
    else ["### Most Common Issues", ""] ++
      (s.commonest.map fun (k, n) => "- **" ++ k ++ "**: " ++ toString n) ++ [""]

def fixes (b : Fix.Batch) : List String :=
  ["## Fix Results", "", "- Total operations: " ++ toString b.total,
    "- Successful: " ++ toString b.successful, "- Failed: " ++ toString b.failed] ++
    ((givenName b.backupDirectory).toList.map fun p => "- Backup directory: " ++ code p) ++ [""]

def issueRow (i : Issue) : String :=
  row [icon i.severity ++ " " ++ i.severityName, i.kindName, code i.file,
    (lineText? i).getD "-", cell i.message]

def suggestions (c : Content) (is : List Issue) : List String :=
  match is.filterMap fun i => (c.suggestion? i).map fun s => "- " ++ code i.id ++ ": " ++ s with
  | [] => []
  | lines => ["**Suggestions:**", ""] ++ lines ++ [""]

def group (c : Content) (key : String) (is : List Issue) : List String :=
  ["### " ++ code key ++ " (" ++ toString is.length ++ ")", "",
    "| Severity | Type | File | Line | Message |",
    "|----------|------|------|------|---------|"] ++ is.map issueRow ++ [""] ++ suggestions c is

def issues (c : Content) : List String :=
  ["## Issues", ""] ++ (if c.groups.isEmpty then ["No issues found.", ""] else []) ++
    c.groups.flatMap fun (key, is) => group c key is

def lines (c : Content) : List String :=
  title c ++ (if c.options.statistics then statistics c.statistics else []) ++
    c.fix.elim [] fixes ++ if c.options.details then issues c else []

def render (c : Content) : String := Text.unlines (lines c)

end ExportLint.Report.Markdown
