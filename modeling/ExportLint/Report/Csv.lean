import ExportLint.Report.Basic

/-!
# Reports as rows

A header and one row for every issue, each ended by a line feed. A field is quoted where a comma, a
quotation mark or the end of a line stands in it; quotation marks within it are doubled.
-/
namespace ExportLint.Report.Csv

def isSpecial (c : Char) : Bool := c == ',' || c == '"' || c == '\r' || c == '\n'

def quoted (cs : List Char) : List Char :=
  '"' :: (cs.flatMap fun c => if c = '"' then ['"', '"'] else [c]) ++ ['"']

def field (s : String) : List Char :=
  if s.toList.any isSpecial then quoted s.toList else s.toList

def row (fields : List String) : List Char := [','].intercalate (fields.map field) ++ ['\n']

def header : List String := ["File Path", "Line", "Type", "Severity", "Message", "Suggestion"]

def fields (c : Content) (i : Issue) : List String :=
  [i.file, i.line.elim "" toString, i.kindName, i.severityName, i.message,
    (c.suggestion? i).getD ""]

def rows (c : Content) : List (List String) := header :: c.issues.map (fields c)

def render (c : Content) : String := String.ofList ((rows c).flatMap row)

end ExportLint.Report.Csv
