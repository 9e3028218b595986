import ExportLint.Report.Basic
import ExportLint.Text.Lines

/-!
# Reports as plain text

Sections with headings, one line for an issue and one for its suggestion.
-/
namespace ExportLint.Report.Console

def rule (c : Char) (n : Nat) : String := String.ofList (List.replicate n c)

/-- A heading with a line below it. -/
def heading (text : String) : List String := [text, rule '-' 40]

/-- A label, and a value in the column behind the labels. -/
def labelled (width : Nat) (label value : String) : String := Text.padRight width label ++ value

def title (c : Content) : List String :=
  [rule '=' 60, "EXPORT CONSISTENCY REPORT", rule '=' 60, labelled 11 "Project:" c.projectName,
    labelled 11 "Path:" c.result.projectPath, labelled 11 "Timestamp:" c.time, ""]

def statistics (s : Statistics) : List String :=
  heading "STATISTICS" ++
    [labelled 19 "Total Files:" (toString s.totalFiles),
      labelled 19 "Total Exports:" (toString s.totalExports),
      labelled 19 "Total Issues:" (toString s.issues),
      labelled 19 "Files With Issues:" (toString s.files)] ++
    ((Named.all : List Severity).map fun v =>
      "  - " ++ labelled 16 (v.title ++ ":") (toString (s.withSeverity v))) ++
    (if s.commonest.isEmpty then []
      else "" :: heading "MOST COMMON ISSUES" ++
        s.commonest.map fun (k, n) => "  " ++ k ++ ": " ++ toString n) ++ [""]

def fixes (b : Fix.Batch) : List String :=
  heading ("FIX RESULTS" ++ if b.dryRun then " (DRY RUN)" else "") ++
    [labelled 19 "Total Operations:" (toString b.total),
      labelled 19 "Successful:" (toString b.successful),
      labelled 19 "Failed:" (toString b.failed)] ++
    (if b.conflicts.isEmpty then []
      else [labelled 19 "Conflicts:" (toString b.conflicts.length)]) ++
    ((givenName b.backupDirectory).toList.map (labelled 19 "Backup Directory:")) ++ [""]

def issue (c : Content) (i : Issue) : List String :=
  ("  " ++ icon i.severity ++ " [" ++ i.kindName ++ "] " ++ placeText i ++ ": " ++ i.message) ::
    (c.suggestion? i).toList.map ("      Fix: " ++ ·)

def group (c : Content) (key : String) (is : List Issue) : List String :=
  ("\n" ++ key ++ " (" ++ toString is.length ++ ")") :: is.flatMap (issue c)

def issues (c : Content) : List String :=
  heading "ISSUES" ++ (if c.groups.isEmpty then ["No issues found."] else []) ++
    c.groups.flatMap fun (key, is) => group c key is

def lines (c : Content) : List String :=
  title c ++ (if c.options.statistics then statistics c.statistics else []) ++
    c.fix.elim [] fixes ++ (if c.options.details then issues c else []) ++ ["", rule '=' 60]

def render (c : Content) : String := Text.unlines (lines c)

end ExportLint.Report.Console
