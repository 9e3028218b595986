import ExportLint.Audit.Result
import ExportLint.Config.Draft
import ExportLint.Fix.Run
import ExportLint.Issue.Group
import ExportLint.Module.Inspector
import ExportLint.Rule.Table
import ExportLint.Scan.Walk

/-!
# Audits

An audit checks its configuration, inspects the files of a project, runs the rules, and fixes what
it may. Fixes are made if options for them are given or if the configuration says so.
-/
namespace ExportLint.Audit

/-- What an audit works on besides a disk. -/
structure Setting where
  config : Config
  /-- Texts that stand in for the files on the disk. -/
  texts : Option (List (String × String)) := none
  reading : ReadOptions := {}
  deriving Repr

/-- What an audit found, what it fixed, and the disk that it left. -/
structure Outcome where
  result : Result
  fix : Option Fix.Batch
  disk : Disk
  deriving Repr

/-- The inventories of some files, which are read once each. -/
def inspect (s : Setting) (d : Disk) (files : List String) : List Inventory :=
  let sources := s.texts.elim (Sources.onDisk d) .inMemory
  let i : Inspector := { sources }
  ((i.setUp files s.reading).inspectAll files).1

/-- The last step of the place that a root leads to. -/
def projectName (d : Disk) (root : String) : String := ((d.resolve root).getLast?).getD ""

/-- Run an audit at a time, on the files that are given or on those that a scan finds. -/
def run (s : Setting) (d : Disk) (now : Moment) (files : Option (List String))
    (fixing : Option Fix.Options) : Except Failure Outcome := do
  let c := s.config
  let verdict ← Config.check d c
  if !verdict.isValid then throw (.configuration verdict.errors verdict.warnings)
  let files := files.getD (d.scan c.scan c.rootPath)
  let inventories := inspect s d files
  let issues ← RuleTable.standard.check c (.ofInventories d.here c.rootPath inventories)
  let batch ← match fixing, c.fixing.enabled with
    | some o, _ => some <$> Fix.run d now c o (Issue.groups (·.place) issues)
    | none, true => some <$> Fix.run d now c {} (Issue.groups (·.place) issues)
    | none, false => pure none
  let fixed := batch.elim [] fun b => Fix.fixedIssues issues b.1
  let result : Result :=
    { projectPath := c.rootPath
      projectName := projectName d c.rootPath
      time := now
      totalFiles := files.length
      analyzedFiles := (inventories.countP fun i => i.errors.isEmpty : Nat)
      totalExports := ((inventories.map fun i => i.exports.length).foldr (· + ·) 0 : Nat)
      issues
      fixed
      summary := .ofIssues issues fixed
      config := match c.toJson with
        | .obj ms => some ms
        | _ => none }
  return { result, fix := batch.map (·.1), disk := batch.elim d (·.2) }

/-- Load the configuration of a project and audit it. -/
def runProject (d : Disk) (now : Moment) (path : String) (configPath : Option String)
    (overrides : Json) : Except Failure Outcome := do
  let config ← Config.load d (some path) configPath overrides {}
  run { config } d now none none

end ExportLint.Audit
