import ExportLint.Config.Draft
import ExportLint.Rule.Table

/-!
# Checking loose exports

The rules on files can be run on exports that come from elsewhere, under the configuration of a
project with some of its rules replaced.
-/
namespace ExportLint.Audit

/-- The file that loose exports count as those of. -/
def fileOf (project : String) (file : Option String) (es : List Export) : String :=
  match givenName file, es with
  | some f, _ => f
  | none, e :: _ => e.file
  | none, [] => (Path.parse project ++ Path.parse "mock.ts").text

def checkExports (d : Disk) (project : String) (rules : Option (List RuleSetting))
    (file : Option String) (es : List Export) : Except Failure (List Issue) := do
  let draft ← Config.Draft.start d project none none
  let draft ← match rules with
    | some rs => draft.update (.obj [("rules", .arr (rs.map (·.toJson)))])
    | none => pure draft
  RuleTable.standard.checkFile (← draft.finish d) (fileOf project file es) es

end ExportLint.Audit
