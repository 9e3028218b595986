import ExportLint.Audit.Run
import ExportLint.CommandLine.Command
import ExportLint.Report.Delivery
import ExportLint.Terminal.Markup
import ExportLint.Terminal.Table

/-!
# Running commands

A run works on a disk and two texts, one for what it says and one for its complaints. What it did
before it failed stays done. It ends with 0 if all is well, with 1 if errors remain, and with 2 if
the configuration is refused.
-/
namespace ExportLint.CommandLine

/-- The disk and what was said so far. -/
structure Session where
  disk : Disk
  output : String := ""
  complaints : String := ""
  deriving Repr

/-- A run that may fail. -/
abbrev Run (α : Type) : Type := ExceptT Failure (StateM Session) α

/-- How a run ended. -/
inductive Ending where
  | exit (code : Nat)
  | stopped (stop : Stop)
  | failed (failure : Failure)
  deriving DecidableEq, Repr

namespace Run

def say (text : String) : Run Unit :=
  modify fun s => { s with output := s.output ++ text ++ "\n" }

def of {α : Type} (e : Except Failure α) : Run α := ExceptT.mk (pure e)

/-- Say a line whose tags are not shown among the complaints. -/
def complain (text : String) : Run Unit := do
  let text ← of (Terminal.Markup.shown text)
  modify fun s => { s with complaints := s.complaints ++ text ++ "\n" }

/-- Say a line whose tags are not shown. -/
def status (text : String) : Run Unit := do say (← of (Terminal.Markup.shown text))

def disk : Run Disk := do return (← get).disk

def setDisk (d : Disk) : Run Unit := modify fun s => { s with disk := d }

end Run

/-- A text between a tag and its closing one. -/
def tagged (tag text : String) : String := "[" ++ tag ++ "]" ++ text ++ "[/" ++ tag ++ "]"

/-- The code for a result. -/
def codeOf (r : Audit.Result) : Nat := if r.hasErrors then 1 else 0

def reportOptions (c : Config) (s : Scan) : Report.Options where
  format := s.format.getD c.reporting.format
  outputPath := (givenName s.output).or c.reporting.outputPath
  suggestions := s.suggestions
  statistics := s.statistics
  groupBy := s.groupBy
  sortBy := s.sortBy
  severities := s.severities

/-- Say where a report went, or say the report itself. -/
def announce (o : Report.Options) (r : Report.Rendered) : Run Unit := do
  match givenName o.outputPath, r.path with
  | none, _ => Run.say (Terminal.shown r.text)
  | some _, some path => Run.status (tagged "green" ("Report written to " ++ path))
  | some path, none =>
    Run.complain (tagged "red" ("Could not write report to " ++ path))
    Run.say (Terminal.shown r.text)

def scan (env : Config.Environment) (now : Moment) (s : Scan) : Run Nat := do
  let config ← Run.of (Config.load (← Run.disk) (some s.path) s.config .null env)
  let outcome ← Run.of (Audit.run { config } (← Run.disk) now none none)
  Run.setDisk outcome.disk
  let o := reportOptions config s
  let (report, sink) ← Run.of (Report.produce outcome.result none o now (.onDisk outcome.disk))
  if let .onDisk d := sink then Run.setDisk d
  announce o report
  return codeOf outcome.result

/-- The row of an outcome in the table of fixes. -/
def fixRow (o : Fix.Outcome) : List String :=
  [o.edit.file, ((o.edit.line.filter (· ≠ 0)).map toString).getD "-", Named.name o.edit.kind,
    if o.success then tagged "green" "ok" else tagged "red" "failed",
    (givenName o.error).getD o.edit.description]

def fixTable (b : Fix.Batch) (dryRun : Bool) : Run Terminal.Table := do
  let rows ← (b.results ++ b.conflicts).mapM fun o =>
    (fixRow o).mapM fun cell => Run.of (Terminal.Markup.shown cell)
  return { title := if dryRun then "Fix Results (dry run)" else "Fix Results"
           columns := [⟨"File", false⟩, ⟨"Line", true⟩, ⟨"Operation", false⟩, ⟨"Status", false⟩,
             ⟨"Details", false⟩]
           rows }

def fixCounts (b : Fix.Batch) : String :=
  "Operations: " ++ toString b.total ++ "  Successful: " ++ toString b.successful ++
    "  Failed: " ++ toString b.failed ++ "  Skipped: " ++ toString b.skipped.length

def fix (env : Config.Environment) (now : Moment) (path : String) (configPath : Option String)
    (o : Fix.Options) : Run Nat := do
  let config ← Run.of (Config.load (← Run.disk) (some path) configPath .null env)
  let outcome ← Run.of (Audit.run { config } (← Run.disk) now none (some o))
  Run.setDisk outcome.disk
  let b := outcome.fix.getD {}
  for line in (← fixTable b o.dryRun).lines do
    Run.say line
  Run.status (fixCounts b)
  if let some d := givenName b.backupDirectory then Run.status ("Backups: " ++ d)
  return codeOf outcome.result

/-- Write the standard settings of a project to their file. -/
def writeConfig (path : String) (force : Bool) : Run Nat := do
  let target := Config.fileIn path
  let d ← Run.disk
  if d.exists? target && !force then
    Run.complain (tagged "yellow" (target ++ " already exists (use --force)"))
    return 2
  let draft ← Run.of (Config.Draft.start d path none none)
  let (written, d) ← Run.of (draft.save d (some target))
  Run.setDisk d
  Run.status (tagged "green" ("Wrote " ++ written))
  return 0

def checkConfig (env : Config.Environment) (path : String) (configPath : Option String) :
    Run Nat := do
  let d ← Run.disk
  let draft ← Run.of (Config.Draft.start d path configPath (some env))
  let verdict ← Run.of (draft.verdict d)
  for w in verdict.warnings do
    Run.status (tagged "yellow" "warning:" ++ " " ++ w)
  if !verdict.isValid then
    for e in verdict.errors do
      Run.complain (tagged "red" "error:" ++ " " ++ e)
    return 2
  Run.status (tagged "green" "Configuration is valid")
  return 0

def Command.run (env : Config.Environment) (now : Moment) : Command → Run Nat
  | .scan s => CommandLine.scan env now s
  | .fix path config o => CommandLine.fix env now path config o
  | .writeConfig path force => CommandLine.writeConfig path force
  | .checkConfig path config => CommandLine.checkConfig env path config

/-- A run whose refused configuration is complained about. -/
def orRefused (run : Run Nat) : Run Nat :=
  tryCatch run fun
    | .configuration errors _ => do
      for e in errors do
        Run.complain (tagged "red" "config error:" ++ " " ++ e)
      return 2
    | f => throw f

/-- The names of log levels. -/
def logLevels : List String :=
  ["CRITICAL", "FATAL", "ERROR", "WARN", "WARNING", "INFO", "DEBUG", "NOTSET"]

/-- The case of a level does not matter. -/
def checkLevel (level : String) : Except Failure Unit :=
  if logLevels.contains (String.ofList (level.toList.flatMap Text.CaseMap.titleOf)) then .ok ()
  else .error .unknownLevel

def Request.run (environment : List (String × String)) (now : Moment) (r : Request) : Run Nat := do
  let env ← Run.of (Config.Environment.read environment).orFail
  Run.of (checkLevel ((givenName r.logLevel).getD env.logLevel))
  orRefused (r.command.run env now)

/-- Run the program on a disk: how it ended, and what it said and left. -/
def run (arguments : List String) (environment : List (String × String)) (d : Disk)
    (now : Moment) : Ending × Session :=
  match Request.read arguments with
  | .error stop => (.stopped stop, { disk := d })
  | .ok r =>
    match (r.run environment now).run { disk := d } with
    | (.ok code, s) => (.exit code, s)
    | (.error f, s) => (.failed f, s)

end ExportLint.CommandLine
