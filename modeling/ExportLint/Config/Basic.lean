import ExportLint.Fix.Edit
import ExportLint.Module.Export
import ExportLint.Naming.CaseStyle

/-!
# Configuration

What a run works with: which files it covers, the rules with their severities, the naming
conventions, how bold automatic fixes may be, and how results are reported.
-/
namespace ExportLint

/-- Which files a scan covers. -/
structure ScanOptions where
  included : List String
  excluded : List String
  recursive : Bool := true
  maxDepth : Option Int := some 10
  followLinks : Bool := false
  deriving DecidableEq, Repr

/-- A rule as it is configured. Its options are free-form. -/
structure RuleSetting where
  name : String
  description : String := ""
  enabled : Bool := true
  severity : Severity := .warning
  options : Json.Members := []
  deriving Repr

/-- The pattern that names must match, and the style that mends those that do not. -/
structure Convention where
  pattern : String
  style : CaseStyle
  deriving DecidableEq, Repr

/-- The convention for each kind of export. -/
structure Conventions where
  interfaces : Convention
  types : Convention
  components : Convention
  functions : Convention
  classes : Convention
  constants : Convention
  deriving DecidableEq, Repr

structure FixPolicy where
  enabled : Bool := false
  createBackup : Bool := true
  maxRisk : Fix.Risk := .medium
  backupDirectory : Option String := none
  deriving DecidableEq, Repr

inductive ReportFormat where
  | console
  | json
  | html
  | markdown
  | csv
  deriving DecidableEq, Repr

structure ReportingOptions where
  format : ReportFormat := .console
  outputPath : Option String := none
  verbose : Bool := false
  deriving DecidableEq, Repr

structure Config where
  rootPath : String
  scan : ScanOptions
  rules : List RuleSetting := []
  conventions : Conventions
  fixing : FixPolicy := {}
  reporting : ReportingOptions := {}
  deriving Repr

instance : Named ReportFormat where
  all := [.console, .json, .html, .markdown, .csv]
  name
    | .console => "console"
    | .json => "json"
    | .html => "html"
    | .markdown => "markdown"
    | .csv => "csv"

namespace ScanOptions

/-- Sources of the language, without tests, declaration files and what builds leave behind. -/
def standard : ScanOptions where
  included := ["**/*.ts", "**/*.tsx"]
  excluded := ["node_modules/**", "dist/**", "build/**", ".export-consistency-backups/**",
    "**/*.test.ts", "**/*.test.tsx", "**/*.spec.ts", "**/*.spec.tsx", "**/*.d.ts"]

def read : Schema.Reader ScanOptions :=
  Schema.record "ScanOptions" fun ms =>
    ScanOptions.mk <$> Schema.fieldOr ms "include" standard.included (Schema.list Schema.string)
      <*> Schema.fieldOr ms "exclude" standard.excluded (Schema.list Schema.string)
      <*> Schema.fieldOr ms "recursive" true Schema.boolean
      <*> Schema.fieldOr ms "maxDepth" (some 10) (Schema.optional Schema.integer)
      <*> Schema.fieldOr ms "followSymlinks" false Schema.boolean

def toJson (o : ScanOptions) : Json :=
  .obj <| [("include", Json.strings o.included), ("exclude", Json.strings o.excluded),
    ("recursive", .bool o.recursive)] ++ Json.optional "maxDepth" (o.maxDepth.map .int) ++
    [("followSymlinks", .bool o.followLinks)]

end ScanOptions

namespace RuleSetting

def read : Schema.Reader RuleSetting :=
  Schema.record "ExportRule" fun ms =>
    RuleSetting.mk <$> Schema.field ms "name" Schema.string
      <*> Schema.fieldOr ms "description" "" Schema.string
      <*> Schema.fieldOr ms "enabled" true Schema.boolean
      <*> Schema.fieldOr ms "severity" .warning Schema.named
      <*> Schema.fieldOr ms "options" [] Schema.free

def toJson (r : RuleSetting) : Json :=
  .obj [("name", .str r.name), ("description", .str r.description), ("enabled", .bool r.enabled),
    ("severity", .str (Named.name r.severity)), ("options", .obj r.options)]

end RuleSetting

namespace Convention

def read : Schema.Reader Convention :=
  Schema.record "NamingConvention" fun ms =>
    Convention.mk <$> Schema.field ms "pattern" Schema.string
      <*> Schema.field ms "caseStyle" Schema.named

def toJson (c : Convention) : Json :=
  .obj [("pattern", .str c.pattern), ("caseStyle", .str (Named.name c.style))]

end Convention

namespace Conventions

/-- Names that start with a capital and have letters and digits only. -/
def capitalized : Convention := ⟨"^[A-Z][a-zA-Z0-9]*$", .pascal⟩

def standard : Conventions where
  interfaces := ⟨"^I[A-Z][a-zA-Z0-9]*$|^[A-Z][a-zA-Z0-9]*$", .pascal⟩
  types := capitalized
  components := capitalized
  functions := ⟨"^[a-z][a-zA-Z0-9]*$", .camel⟩
  classes := capitalized
  constants := ⟨"^[A-Z][A-Z0-9_]*$|^[a-z][a-zA-Z0-9]*$|^[A-Z][a-zA-Z0-9]*$", .camel⟩

def forKind (c : Conventions) : ExportKind → Convention
  | .interface => c.interfaces
  | .typeAlias => c.types
  | .component => c.components
  | .function => c.functions
  | .classDef => c.classes
  | .constant => c.constants

/-- The field that holds the convention for a kind. -/
def fieldOf : ExportKind → String
  | .interface => "interfaces"
  | .typeAlias => "types"
  | .component => "components"
  | .function => "functions"
  | .classDef => "classes"
  | .constant => "constants"

def read : Schema.Reader Conventions :=
  Schema.record "NamingConventions" fun ms =>
    Conventions.mk <$> Schema.fieldOr ms "interfaces" standard.interfaces Convention.read
      <*> Schema.fieldOr ms "types" standard.types Convention.read
      <*> Schema.fieldOr ms "components" standard.components Convention.read
      <*> Schema.fieldOr ms "functions" standard.functions Convention.read
      <*> Schema.fieldOr ms "classes" standard.classes Convention.read
      <*> Schema.fieldOr ms "constants" standard.constants Convention.read

def toJson (c : Conventions) : Json :=
  .obj [("interfaces", c.interfaces.toJson), ("types", c.types.toJson),
    ("components", c.components.toJson), ("functions", c.functions.toJson),
    ("classes", c.classes.toJson), ("constants", c.constants.toJson)]

end Conventions

namespace FixPolicy

def read : Schema.Reader FixPolicy :=
  Schema.record "AutoFixPolicy" fun ms =>
    FixPolicy.mk <$> Schema.fieldOr ms "enabled" false Schema.boolean
      <*> Schema.fieldOr ms "createBackup" true Schema.boolean
      <*> Schema.fieldOr ms "maxRiskLevel" .medium Schema.named
      <*> Schema.fieldOr ms "backupDirectory" none (Schema.optional Schema.string)

def toJson (p : FixPolicy) : Json :=
  .obj <| [("enabled", .bool p.enabled), ("createBackup", .bool p.createBackup),
    ("maxRiskLevel", .str (Named.name p.maxRisk))] ++
    Json.optional "backupDirectory" (p.backupDirectory.map .str)

end FixPolicy

namespace ReportingOptions

def read : Schema.Reader ReportingOptions :=
  Schema.record "ReportingOptions" fun ms =>
    ReportingOptions.mk <$> Schema.fieldOr ms "format" .console Schema.named
      <*> Schema.fieldOr ms "outputPath" none (Schema.optional Schema.string)
      <*> Schema.fieldOr ms "verbose" false Schema.boolean

def toJson (r : ReportingOptions) : Json :=
  .obj <| [("format", .str (Named.name r.format))] ++
    Json.optional "outputPath" (r.outputPath.map .str) ++ [("verbose", .bool r.verbose)]

end ReportingOptions

namespace Config

def read : Schema.Reader Config :=
  Schema.record "ExportConfig" fun ms =>
    Config.mk <$> Schema.field ms "rootPath" Schema.string
      <*> Schema.fieldOr ms "scanOptions" ScanOptions.standard ScanOptions.read
      <*> Schema.fieldOr ms "rules" [] (Schema.list RuleSetting.read)
      <*> Schema.fieldOr ms "namingConventions" Conventions.standard Conventions.read
      <*> Schema.fieldOr ms "autoFix" {} FixPolicy.read
      <*> Schema.fieldOr ms "reporting" {} ReportingOptions.read

def toJson (c : Config) : Json :=
  .obj [("rootPath", .str c.rootPath), ("scanOptions", c.scan.toJson),
    ("rules", .arr (c.rules.map (·.toJson))), ("namingConventions", c.conventions.toJson),
    ("autoFix", c.fixing.toJson), ("reporting", c.reporting.toJson)]

/-- The first rule with a name. -/
def rule? (c : Config) (name : String) : Option RuleSetting := c.rules.find? (·.name == name)

def isRuleEnabled (c : Config) (name : String) : Bool := (c.rule? name).any (·.enabled)

def enabledRules (c : Config) : List RuleSetting := c.rules.filter (·.enabled)

def rulesBySeverity (c : Config) (s : Severity) : List RuleSetting :=
  c.rules.filter fun r => r.enabled && r.severity == s

end Config

end ExportLint
