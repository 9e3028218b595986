import ExportLint.Report.Basic
import ExportLint.Text.Lines

/-!
# Reports as pages

A page is made of markup and of texts. Texts are escaped when they are written, so that no text is
taken for markup.
-/
namespace ExportLint.Report.Html

inductive Piece where
  | markup (s : String)
  | text (s : String)
  deriving DecidableEq, Repr

def escapeChar : Char → List Char
  | '&' => "&amp;".toList
  | '<' => "&lt;".toList
  | '>' => "&gt;".toList
  | '"' => "&quot;".toList
  | '\'' => "&#x27;".toList
  | c => [c]

def escape (s : String) : String := String.ofList (s.toList.flatMap escapeChar)

def Piece.render : Piece → String
  | .markup s => s
  | .text s => escape s

abbrev Line := List Piece

def renderLine (l : Line) : String := String.join (l.map Piece.render)

def markup (s : String) : Line := [.markup s]

/-- A text between tags. -/
def wrapped (before text after : String) : Line := [.markup before, .text text, .markup after]

/-- How a page looks. -/
def style : List Line :=
  ["<style>", "body \x7b font-family: sans-serif; margin: 2rem; \x7d",
    ".stats \x7b display: flex; gap: 1rem; \x7d",
    ".stat-card \x7b border: 1px solid #ddd; border-radius: 4px; padding: 1rem; \x7d",
    ".issue \x7b margin: 0.5rem 0; \x7d",
    ".error \x7b color: #c0392b; \x7d .warning \x7b color: #d68910; \x7d " ++
      ".info \x7b color: #2471a3; \x7d",
    ".suggestion \x7b color: #555; font-style: italic; \x7d", "</style>"].map markup

def head (c : Content) : List Line :=
  ["<!DOCTYPE html>", "<html lang=\"en\">", "<head>", "<meta charset=\"utf-8\">"].map markup ++
    [wrapped "<title>Export Consistency Report - " c.projectName "</title>"] ++ style ++
    ["</head>", "<body>", "<h1>Export Consistency Report</h1>"].map markup ++
    [wrapped "<p>Project: <strong>" c.projectName "</strong><br>",
      wrapped "Generated: " c.time "</p>"]

def card (label value : String) : Line :=
  [.markup "<div class=\"stat-card\"><h3>", .text label, .markup "</h3><p>", .text value,
    .markup "</p></div>"]

def statistics (s : Statistics) : List Line :=
  [markup "<div class=\"stats\">", card "Total Files" (toString s.totalFiles),
    card "Total Exports" (toString s.totalExports), card "Total Issues" (toString s.issues),
    card "Files With Issues" (toString s.files)] ++
    ((Named.all : List Severity).map fun v => card v.title (toString (s.withSeverity v))) ++
    [markup "</div>"]

def fixes (b : Fix.Batch) : List Line :=
  [markup "<div class=\"fix-result\">", markup "<h2>Fix Results</h2>",
    [.markup "<p>Total: ", .text (toString b.total), .markup ", Successful: ",
      .text (toString b.successful), .markup ", Failed: ", .text (toString b.failed),
      .markup "</p>"]] ++
    ((givenName b.backupDirectory).toList.map fun p =>
      wrapped "<p>Backup directory: <code>" p "</code></p>") ++ [markup "</div>"]

def issue (c : Content) (i : Issue) : List Line :=
  [[.markup "<div class=\"issue ", .text i.severityName, .markup "\">"],
    [.markup "<strong>[", .text i.kindName, .markup "]</strong> <code>", .text (placeText i),
      .markup "</code> ", .text i.message]] ++
    ((c.suggestion? i).toList.map fun s => wrapped "<div class=\"suggestion\">" s "</div>") ++
    [markup "</div>"]

def group (c : Content) (key : String) (is : List Issue) : List Line :=
  [markup "<div class=\"issue-group\">",
    [.markup "<h3>", .text key, .markup " (", .text (toString is.length), .markup ")</h3>"]] ++
    is.flatMap (issue c) ++ [markup "</div>"]

def issues (c : Content) : List Line :=
  markup "<h2>Issues</h2>" ::
    (if c.groups.isEmpty then [markup "<p>No issues found.</p>"] else []) ++
    c.groups.flatMap fun (key, is) => group c key is

def page (c : Content) : List Line :=
  head c ++ (if c.options.statistics then statistics c.statistics else []) ++
    c.fix.elim [] fixes ++ (if c.options.details then issues c else []) ++
    [markup "</body>", markup "</html>"]

def render (c : Content) : String := Text.unlines ((page c).map renderLine)

end ExportLint.Report.Html
