import ExportLint.Issue.Summary

/-!
# Results of an audit

What a run found and what it fixed, with the configuration that it ran under.
-/
namespace ExportLint.Audit

structure Result where
  projectPath : String
  projectName : String := ""
  time : Moment
  totalFiles : Int := 0
  analyzedFiles : Int := 0
  totalExports : Int := 0
  issues : List Issue := []
  fixed : List Issue := []
  summary : Summary := {}
  config : Option Json.Members := none
  deriving Repr

namespace Result

/-- An error was found and not fixed. -/
def hasErrors (r : Result) : Bool :=
  r.issues.any fun i => i.severity == .error && !(r.fixed.any fun f => f.id == i.id)

/-- A result as it is written. Without a time of its own it has that of the reading. -/
def read (now : Moment) : Schema.Reader Result :=
  Schema.record "ProjectAnalysisResult" fun ms =>
    Result.mk <$> Schema.field ms "projectPath" Schema.string
      <*> Schema.fieldOr ms "projectName" "" Schema.string
      <*> Schema.fieldOr ms "scanTimestamp" now Schema.moment
      <*> Schema.fieldOr ms "totalFiles" 0 Schema.integer
      <*> Schema.fieldOr ms "analyzedFiles" 0 Schema.integer
      <*> Schema.fieldOr ms "totalExports" 0 Schema.integer
      <*> Schema.fieldOr ms "issues" [] (Schema.list Issue.read)
      <*> Schema.fieldOr ms "fixedIssues" [] (Schema.list Issue.read)
      <*> Schema.fieldOr ms "summary" {} Summary.read
      <*> Schema.fieldOr ms "config" none (Schema.optional Schema.free)

def toJson (r : Result) : Json :=
  .obj <| [("projectPath", .str r.projectPath), ("projectName", .str r.projectName),
    ("scanTimestamp", .str r.time.recordText), ("totalFiles", .int r.totalFiles),
    ("analyzedFiles", .int r.analyzedFiles), ("totalExports", .int r.totalExports),
    ("issues", .arr (r.issues.map (·.toJson))), ("fixedIssues", .arr (r.fixed.map (·.toJson))),
    ("summary", r.summary.toJson)] ++ Json.optional "config" (r.config.map .obj)

end Result

end ExportLint.Audit
