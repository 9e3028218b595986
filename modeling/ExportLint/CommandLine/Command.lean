import ExportLint.CommandLine.Grammar
import ExportLint.Fix.Batch
import ExportLint.Report.Basic

/-!
# Commands

What the program can be asked to do: report on a project, fix it, write its settings file, or check
its settings.
-/
namespace ExportLint.CommandLine

/-- A report on a project. What is left open follows the configuration. -/
structure Scan where
  path : String
  config : Option String
  format : Option ReportFormat
  output : Option String
  groupBy : Report.GroupKey
  sortBy : Report.SortKey
  severities : Option (List Severity)
  suggestions : Bool
  statistics : Bool
  deriving DecidableEq, Repr

inductive Command where
  | scan (scan : Scan)
  | fix (path : String) (config : Option String) (options : Fix.Options)
  | writeConfig (path : String) (force : Bool)
  | checkConfig (path : String) (config : Option String)
  deriving DecidableEq, Repr

/-- A command and the level of the log, if one is given. -/
structure Request where
  command : Command
  logLevel : Option String
  deriving DecidableEq, Repr

def programName : String := "export-consistency"

def namesOf (α : Type) [Named α] : List String := (Named.all : List α).map Named.name

def help : Opt := { names := ["-h", "--help"], purpose := .help }

/-- An option with one argument. -/
def valued (name : String) : Opt := { names := [name], arity := .one }

/-- An option with one of a set of arguments. -/
def chosen (name : String) (α : Type) [Named α] : Opt :=
  { names := [name], arity := .one, choices := some (namesOf α) }

def flag (name : String) : Opt := { names := [name] }

namespace Grammar

def top : Grammar where
  program := programName
  options := [help, { names := ["--version"], purpose := .version }, valued "--log-level"]
  operand := .command "command" ["scan", "fix", "config"]

def scan : Grammar where
  program := programName ++ " scan"
  options := [help, valued "--config", chosen "--format" ReportFormat,
    { names := ["--output", "-o"], arity := .one }, chosen "--group-by" Report.GroupKey,
    chosen "--sort-by" Report.SortKey,
    { names := ["--severity"], arity := .some, choices := some (namesOf Severity) },
    flag "--no-suggestions", flag "--no-statistics"]
  operand := .place

def fix : Grammar where
  program := programName ++ " fix"
  options := [help, valued "--config", flag "--dry-run", flag "--no-backup", valued "--backup-dir",
    chosen "--max-risk" Fix.Risk]
  operand := .place

def config : Grammar where
  program := programName ++ " config"
  options := [help]
  operand := .command "config_command" ["init", "validate"]

def writeConfig : Grammar where
  program := programName ++ " config init"
  options := [help, flag "--force"]
  operand := .place

def checkConfig : Grammar where
  program := programName ++ " config validate"
  options := [help, valued "--config"]
  operand := .place

end Grammar

/-- The member of a closed set that an option chooses. -/
def Reading.member? {α : Type} [Named α] (r : Reading) (name : String) : Option α :=
  (r.value? name).bind Named.ofName?

def scanOf (r : Reading) : Scan where
  path := r.place
  config := r.value? "--config"
  format := r.member? "--format"
  output := r.value? "--output"
  groupBy := (r.member? "--group-by").getD .file
  sortBy := (r.member? "--sort-by").getD .file
  severities := (r.values? "--severity").map fun vs => vs.filterMap Named.ofName?
  suggestions := !r.has "--no-suggestions"
  statistics := !r.has "--no-statistics"

def fixOf (r : Reading) : Fix.Options where
  dryRun := r.has "--dry-run"
  createBackup := if r.has "--no-backup" then some false else none
  backupDirectory := r.value? "--backup-dir"
  maxRisk := r.member? "--max-risk"

/-- The command behind `config`, and what has no place in it. -/
def readConfig (arguments : List String) : Except Stop (Command × List String) := do
  let r ← Grammar.config.read arguments
  match r.operands with
  | some ("init" :: rest) =>
    let c ← Grammar.writeConfig.read rest
    return (.writeConfig c.place (c.has "--force"), r.extras ++ c.extras)
  | some (_ :: rest) =>
    let c ← Grammar.checkConfig.read rest
    return (.checkConfig c.place (c.value? "--config"), r.extras ++ c.extras)
  | _ => Grammar.config.fail (.missing "config_command")

def readCommand (operands : List String) : Except Stop (Command × List String) :=
  match operands with
  | "scan" :: rest => do
    let r ← Grammar.scan.read rest
    return (.scan (scanOf r), r.extras)
  | "fix" :: rest => do
    let r ← Grammar.fix.read rest
    return (.fix r.place (r.value? "--config") (fixOf r), r.extras)
  | _ :: rest => readConfig rest
  | [] => Grammar.top.fail (.missing "command")

/-- What the program is asked to do. Arguments without a place are faults of the whole. -/
def Request.read (arguments : List String) : Except Stop Request := do
  let r ← Grammar.top.read arguments
  let (command, extras) ← readCommand (r.operands.getD [])
  let extras := r.extras ++ extras
  if !extras.isEmpty then Grammar.top.fail (.unrecognized extras)
  return ⟨command, r.value? "--log-level"⟩

end ExportLint.CommandLine
