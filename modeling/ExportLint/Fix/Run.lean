import ExportLint.Fix.Application
import ExportLint.Fix.Batch
import ExportLint.Fix.Proposal
import ExportLint.Module.Sources

/-!
# Fixing files

Edits above the risk that is allowed are set aside, repeated ones are applied once, and those that
conflict are not applied. Every file is backed up before it changes. What fails in one file leaves
the others as they are.
-/
namespace ExportLint

/-- The lines of a file on a disk. Carriage returns are part of the lines. -/
def Disk.readLines (d : Disk) (path : String) : Except Failure (List String) :=
  match d.readBytes path with
  | .error e => .error (.disk e)
  | .ok bytes =>
    match Text.Utf8.decode bytes with
    | .error e => .error (.encoding e)
    | .ok cs => .ok (Text.lines (String.ofList cs))

def Disk.writeLines (d : Disk) (path : String) (lines : List String) : Except Failure Disk :=
  match d.writeBytes path (Text.Utf8.encode (Text.unlines lines)) with
  | .ok d => .ok d
  | .error e => .error e.failure

namespace Fix

/-- The edits for the issues of a file. A file that cannot be read has none. -/
def edits (d : Disk) (c : Conventions) (categories : Option (List Category)) (file : String)
    (is : List Issue) : Except Failure (List Edit) :=
  match is.filter (isChosen categories) with
  | [] => .ok []
  | chosen =>
    match d.readLines (Path.tidy file) with
    | .ok lines => editsFor c file lines chosen
    | .error _ => .ok []

/-- The directory for backups that are made at a time. -/
def backupDirectory (c : Config) (custom : Option String) (now : Moment) : Path :=
  match (givenName custom).or (givenName c.fixing.backupDirectory) with
  | some p => Path.parse p
  | none => Path.parse c.rootPath ++
      ⟨"", [".export-consistency-backups", now.directoryStamp]⟩

/-- The place of a backup: like that of the file below the root, or under its name alone. -/
def backupPath (d : Disk) (root : String) (directory : Path) (file : Path) : Path :=
  let at_ := d.resolve file.text
  let base := d.resolve root
  if base.isPrefixOf at_ then directory ++ ⟨"", at_.drop base.length⟩
  else directory ++ ⟨"", [file.name]⟩

/-- Copy a file to its backup. -/
def backUp (d : Disk) (root : String) (directory : Path) (file : Path) :
    Except WriteError String × Disk :=
  let target := backupPath d root directory file
  match d.makeDirectories target.parent with
  | .error e => (.error (.disk e), d)
  | .ok made =>
    match made.copyFile file target with
    | .ok copied => (.ok target.text, copied)
    | .error e => (.error e, made)

def failed (edits : List Edit) (message : String) (backup : Option String) : List Outcome :=
  edits.map fun e => ⟨false, e, some message, backup⟩

/-- Edit a file whose lines are known and which is backed up. It is written only if some edit
succeeds. -/
def editLines (d : Disk) (file : String) (lines : List String) (backup : Option String)
    (edits : List Edit) : List Outcome × Disk :=
  let (outcomes, final) := applyEdits lines edits
  let results := outcomes.map fun (e, fault) =>
    ⟨fault.isNone, e, fault.map (·.message), backup⟩
  if outcomes.any (·.2.isNone) then
    match d.writeLines file final with
    | .ok d => (results, d)
    | .error e => (failed edits e.message backup, d)
  else (results, d)

/-- Apply the edits of one file. -/
def editFile (d : Disk) (root : String) (directory : Option Path) (file : String)
    (edits : List Edit) : List Outcome × Disk :=
  let path := Path.parse file
  match d.readLines path.text with
  | .error e => (failed edits e.message none, d)
  | .ok lines =>
    match directory with
    | none => editLines d path.text lines none edits
    | some directory =>
      match backUp d root directory path with
      | (.error e, d) => (failed edits e.message none, d)
      | (.ok backup, d) => editLines d path.text lines (some backup) edits

def editFiles (d : Disk) (root : String) (directory : Option Path) :
    List (String × List Edit) → List Outcome × Disk
  | [] => ([], d)
  | (file, edits) :: rest =>
    let (outcomes, d) := editFile d root directory file edits
    let (more, d) := editFiles d root directory rest
    (outcomes ++ more, d)

/-- Edits by their files, in the order of their first edits. -/
def byFile (edits : List Edit) : List (String × List Edit) :=
  (edits.map (·.file)).eraseDups.map fun f => (f, edits.filter fun e => e.file == f)

def conflictOutcome (e : Edit) : Outcome :=
  ⟨false, e, some ("Conflicting edits for " ++ e.file ++ ":" ++ (e.line.elim "" toString)), none⟩

/-- Apply edits, with backups if they are asked for. -/
def applyAll (d : Disk) (now : Moment) (c : Config) (o : Options) (edits skipped : List Edit) :
    Batch × Disk :=
  let unique := edits.eraseDups
  let conflicts := (unique.filter (conflictsWith unique)).map conflictOutcome
  let files := byFile (unique.filter fun e => !conflictsWith unique e)
  if (o.createBackup.getD c.fixing.createBackup) && !files.isEmpty then
    let directory := backupDirectory c o.backupDirectory now
    match d.makeDirectories directory with
    | .error e =>
      let results := files.flatMap fun f => failed f.2 ("Backup failed: " ++ e.message) none
      (.ofResults results conflicts skipped none false, d)
    | .ok d =>
      let (results, d) := editFiles d c.rootPath (some directory) files
      (.ofResults results conflicts skipped (some directory.text) false, d)
  else
    let (results, d) := editFiles d c.rootPath none files
    (.ofResults results conflicts skipped none false, d)

/-- Fix the issues of some files. A dry run takes every allowed edit for a success. -/
def run (d : Disk) (now : Moment) (c : Config) (o : Options)
    (issues : List (String × List Issue)) : Except Failure (Batch × Disk) := do
  let proposed := (← issues.mapM fun (file, is) =>
    edits d c.conventions o.categories file is).flatten
  let limit := (o.maxRisk.getD c.fixing.maxRisk).rank
  let skipped := proposed.filter fun e => limit < e.risk.rank
  let allowed := proposed.filter fun e => !(limit < e.risk.rank)
  if o.dryRun then
    return (.ofResults (allowed.map fun e => ⟨true, e, none, none⟩) [] skipped none true, d)
  return applyAll d now c o allowed skipped

/-- Issues that were fixed: they have edits, and every one was applied. -/
def fixedIssues (is : List Issue) (b : Batch) : List Issue :=
  let outcomes (id : String) : List Bool :=
    if id.isEmpty then []
    else (b.results.filter fun o => o.edit.issue == some id).map (·.success) ++
      (b.conflicts.filter fun o => o.edit.issue == some id).map fun _ => false
  if b.dryRun then [] else is.filter fun i => !(outcomes i.id).isEmpty && (outcomes i.id).all id

end Fix

end ExportLint
