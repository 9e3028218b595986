import ExportLint.Config.Basic

/-!
# Settings from the environment

Variables with a common beginning override the configuration of a run. Capitals do not matter in
their names; of two spellings of one name the later counts.
-/
namespace ExportLint.Config

/-- What the environment says. -/
structure Environment where
  rootPath : String := "."
  reportFormat : Option ReportFormat := none
  outputPath : Option String := none
  autoFix : Option Bool := none
  logLevel : String := "WARNING"
  deriving DecidableEq, Repr

namespace Environment

def lead : String := "export_consistency_"

/-- The value of a variable, by the part of its name behind the common beginning. -/
def valueOf? (vars : List (String × String)) (name : String) : Option String :=
  (vars.reverse.find? fun v => Schema.asciiLower v.1 == lead ++ name).map (·.2)

def setting {α : Type} (vars : List (String × String)) (name : String) (default : α)
    (read : Schema.Reader α) : Validated α :=
  match valueOf? vars name with
  | none => .valid default
  | some s => (read (.str s)).under name

def read (vars : List (String × String)) : Validated Environment :=
  Environment.mk <$> setting vars "root_path" "." Schema.string
    <*> setting vars "report_format" none (Schema.optional Schema.named)
    <*> setting vars "output_path" none (Schema.optional Schema.string)
    <*> setting vars "auto_fix" none (Schema.optional Schema.boolean)
    <*> setting vars "log_level" "WARNING" Schema.string

/-- The settings as overrides of a configuration. -/
def overrides (e : Environment) : Json.Members :=
  let reporting := Json.optional "format" (e.reportFormat.map fun f => .str (Named.name f)) ++
    Json.optional "outputPath" (e.outputPath.map .str)
  (if reporting.isEmpty then [] else [("reporting", .obj reporting)]) ++
    Json.optional "autoFix" (e.autoFix.map fun b => .obj [("enabled", .bool b)])

end Environment

end ExportLint.Config
