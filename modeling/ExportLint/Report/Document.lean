import ExportLint.Json.Writer
import ExportLint.Report.Basic

/-!
# Reports as data

One object with the issues in order and, as far as the options ask for them, the counts and the
groups by the identifiers of their issues. Not every report can be written so: integers have a
greatest length, and metadata a greatest depth.
-/
namespace ExportLint.Report.Document

/-- The version that reports name. -/
def version : String := "0.1.0"

def document (c : Content) : Json :=
  .obj <| [("metadata", .obj [("timestamp", .str c.time),
      ("format", .str (Named.name c.options.format)), ("version", .str version)]),
    ("projectName", .str c.projectName), ("projectPath", .str c.result.projectPath),
    ("filesAnalyzed", .int c.result.analyzedFiles), ("summary", c.result.summary.toJson),
    ("issues", .arr (c.issues.map (·.toJson)))] ++
    (if c.options.statistics then [("statistics", c.statistics.toJson)] else []) ++
    (if c.options.details then
        [("groups", .obj (c.groups.map fun (k, is) => (k, Json.strings (is.map (·.id)))))]
      else []) ++
    Json.optional "fixResult" (c.fix.map (·.toJson))

def render (c : Content) : String := (document c).pretty

/-- The metadata of issues are written if they are no deeper. -/
def depthLimit : Nat := 255

/-- What keeps a report from being written: metadata that are nested too deep, or else an integer
with too many digits. -/
def refusal? (c : Content) : Option Failure :=
  if c.issues.any fun i => i.metadata.any fun m => decide (depthLimit < m.2.depth) then
    some .tooDeep
  else if (document c).holdsLong then some .unwritableInteger
  else none

end ExportLint.Report.Document
