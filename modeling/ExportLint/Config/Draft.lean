import ExportLint.Config.Check
import ExportLint.Config.Default
import ExportLint.Config.Environment
import ExportLint.Config.Merge
import ExportLint.Json.Reader
import ExportLint.Json.Writer
import ExportLint.Module.Import
import ExportLint.Naming.Key

/-!
# Drafts of a configuration

A draft starts from the standard settings of a project, takes in the project's file and the
environment, may be overridden further, and is checked before a run uses it.
-/
namespace ExportLint.Config

structure Draft where
  projectPath : String
  /-- The file that the settings came from. -/
  configPath : Option String
  data : Json
  deriving Repr

def fileName : String := ".export-consistency.json"

/-- The settings in a file. -/
def readFile (d : Disk) (path : String) : Except Failure Json :=
  let path := Path.tidy path
  let refused (text : String) : Failure := .configuration [path ++ ": " ++ text] []
  match d.readBytes path with
  | .error e => .error (refused ("cannot read configuration (" ++ e.message ++ ")"))
  | .ok bytes =>
    match Text.Utf8.decode bytes with
    | .error e => .error (.encoding e)
    | .ok cs =>
      match Json.read (String.ofList (Text.universalNewlines cs)) with
      | .error ⟨.longInteger n, _⟩ => .error (.longInteger n)
      | .error e =>
        .error (refused ("invalid JSON (" ++ e.fault.message ++ " at line " ++
          toString e.line ++ ")"))
      | .ok (.obj ms) => .ok (.obj ms)
      | .ok _ => .error (refused "configuration must be a JSON object")

/-- The place of the settings file in a project. -/
def fileIn (project : String) : String := (Path.parse project ++ ⟨"", [fileName]⟩).text

namespace Draft

/-- The draft of a project. Without a path, the file in the project is read if it is there; an empty
path stands for no file. -/
def start (d : Disk) (project : String) (path : Option String) (env : Option Environment) :
    Except Failure Draft := do
  let file := match path with
    | some p => some p
    | none => if d.exists? (fileIn project) then some (fileIn project) else none
  let file := givenName file
  let data := Json.obj (standardData project)
  let data ← match file with
    | some p => do merge data (← readFile d p)
    | none => pure data
  let data ← match env with
    | some e => merge data (.obj e.overrides)
    | none => pure data
  return ⟨project, file, data⟩

/-- Overrides with keys in either spelling. -/
def update (draft : Draft) (overrides : Json) : Except Failure Draft := do
  return { draft with data := ← merge draft.data (Naming.camelizeKeys overrides) }

def verdict (d : Disk) (draft : Draft) : Except Failure Verdict :=
  (·.2) <$> ofData d draft.data

/-- The configuration, unless anything is wrong with it. -/
def finish (d : Disk) (draft : Draft) : Except Failure Config := do
  match ← ofData d draft.data with
  | (some c, v) => if v.isValid then .ok c else .error (.configuration v.errors v.warnings)
  | (none, v) => .error (.configuration v.errors v.warnings)

/-- The text of a settings file. -/
def text (draft : Draft) : String := draft.data.prettyAscii ++ "\n"

/-- The path that a draft is saved to. -/
def target (draft : Draft) (path : Option String) : String :=
  match givenName path, draft.configPath with
  | some p, _ => Path.tidy p
  | none, some p => Path.tidy p
  | none, none => fileIn draft.projectPath

def save (d : Disk) (draft : Draft) (path : Option String) : Except Failure (String × Disk) :=
  let p := draft.target path
  if draft.data.holdsLong then .error .unwritableInteger
  else
    match d.writeBytes p (Text.Utf8.encode draft.text) with
    | .ok d => .ok (p, d)
    | .error e => .error e.failure

end Draft

/-- The configuration of a run. Without a root the environment names one. -/
def load (d : Disk) (root path : Option String) (overrides : Json) (env : Environment) :
    Except Failure Config := do
  let draft ← Draft.start d (root.getD env.rootPath) path (some env)
  let draft ← if overrides.isTruthy then draft.update overrides else pure draft
  draft.finish d

end ExportLint.Config
