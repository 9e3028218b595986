import ExportLint.Disk.Basic
import ExportLint.Report.Console
import ExportLint.Report.Csv
import ExportLint.Report.Document
import ExportLint.Report.Html
import ExportLint.Report.Markdown
import ExportLint.Text.Utf8

/-!
# Rendering and saving reports

A report is rendered first, unless its format cannot hold what it is to show. That saving it fails
does not change it.
-/
namespace ExportLint.Report

structure Rendered where
  format : ReportFormat
  text : String
  statistics : Statistics
  /-- Where the report was saved. -/
  path : Option String := none
  deriving Repr

def Content.render (c : Content) : String :=
  match c.options.format with
  | .console => Console.render c
  | .json => Document.render c
  | .html => Html.render c
  | .markdown => Markdown.render c
  | .csv => Csv.render c

def render (r : Audit.Result) (fix : Option Fix.Batch) (o : Options) : Rendered :=
  let c := Content.of r fix o
  { format := o.format, text := c.render, statistics := c.statistics }

/-- Where reports are kept. -/
inductive Sink where
  | onDisk (disk : Disk)
  /-- Takes every report. -/
  | accepting
  /-- Takes none. -/
  | refusing

/-- Write a text to a file, whose directory is made if need be. -/
def writeReport (d : Disk) (path text : String) : Except WriteError Disk :=
  let p := Path.parse path
  match d.makeDirectories p.parent with
  | .error e => .error (.disk e)
  | .ok d => d.writeBytes p.text (Text.Utf8.encode text)

/-- Whether a sink takes a text, and the sink afterwards. -/
def Sink.write (s : Sink) (path text : String) : Bool × Sink :=
  match s with
  | .onDisk d =>
    match writeReport d path text with
    | .ok d => (true, .onDisk d)
    | .error _ => (false, .onDisk d)
  | .accepting => (true, s)
  | .refusing => (false, s)

def extension : ReportFormat → String
  | .console => "txt"
  | .json => "json"
  | .html => "html"
  | .markdown => "md"
  | .csv => "csv"

/-- The name of a report that was made at a time. -/
def fileName (format : ReportFormat) (time : Moment) : String :=
  "export-consistency-report-" ++ time.fileStamp ++ "." ++ extension format

/-- Save a report: to a path, to where it was saved before, or under a name of its own. The path is
given back if the sink takes the report. -/
def save (r : Rendered) (path : Option String) (now : Moment) (s : Sink) :
    Option String × Sink :=
  let target := ((givenName path).or (givenName r.path)).getD (fileName r.format now)
  let (taken, s) := s.write target r.text
  (if taken then some target else none, s)

/-- What keeps a report from being rendered. -/
def Content.refusal? (c : Content) : Option Failure :=
  match c.options.format with
  | .json => Document.refusal? c
  | _ => none

/-- Render a report and save it, if the options name a path. -/
def deliver (result : Audit.Result) (fix : Option Fix.Batch) (o : Options) (now : Moment)
    (s : Sink) : Rendered × Sink :=
  let r := render result fix o
  match givenName o.outputPath with
  | none => (r, s)
  | some path =>
    let (saved, s) := save r (some path) now s
    ({ r with path := saved }, s)

/-- Deliver a report, unless something keeps it from being rendered. -/
def produce (result : Audit.Result) (fix : Option Fix.Batch) (o : Options) (now : Moment)
    (s : Sink) : Except Failure (Rendered × Sink) :=
  match (Content.of result fix o).refusal? with
  | some f => .error f
  | none => .ok (deliver result fix o now s)

end ExportLint.Report
