import ExportLint.Rule.Cycle
import ExportLint.Rule.Duplicate
import ExportLint.Rule.Link
import ExportLint.Rule.Naming
import ExportLint.Rule.TypeLevel

/-!
# Running rules

Rules stand in a table under the names that configurations use. A rule runs if the configuration has
a rule of its name that is enabled; some rules always run. The rules on files come first, file by
file, then those on the project; findings are numbered in the order in which they are made.
-/
namespace ExportLint

structure RuleTable where
  onFiles : List (String × FileRule)
  onProject : List (String × ProjectRule)

namespace RuleTable

open Rule

def standard : RuleTable where
  onFiles := [("consistent-naming", namesFollowConventions),
    ("no-duplicate-exports", namesAreExportedOnce), ("single-default-export", oneDefaultAtMost),
    ("default-export-naming", defaultIsNamedLikeFile), ("export-patterns", formsAreAllowed)]
  onProject := [("no-global-conflicts", namesAreUnique),
    ("import-export-match", importsMatchExports), ("no-missing-exports", importedNamesAreExported),
    ("type-export-consistency", typesTravelAsTypes), ("no-unused-exports", exportsAreUsed),
    ("no-circular-dependencies", filesFormNoCycles), ("internal-access", boundariesAreKept)]

/-- Set an entry in its place, or at the end. -/
def setEntry {α : Type} (name : String) (a : α) : List (String × α) → List (String × α)
  | [] => [(name, a)]
  | (n, b) :: rest => if n = name then (n, a) :: rest else (n, b) :: setEntry name a rest

def withFileRule (t : RuleTable) (name : String) (r : FileRule) : RuleTable :=
  { t with onFiles := setEntry name r t.onFiles }

def withProjectRule (t : RuleTable) (name : String) (r : ProjectRule) : RuleTable :=
  { t with onProject := setEntry name r t.onProject }

/-- Rules that run whatever the configuration says. -/
def alwaysOn : List String := ["single-default-export"]

/-- How a rule is to run, if it is. -/
def active? (c : Config) (name : String) : Option RuleSetting :=
  if alwaysOn.contains name then some { name, severity := .error }
  else (c.rule? name).filter (·.enabled)

/-- The findings of those rules that are to run. -/
def run {α : Type} (c : Config) (rules : List (String × α)) (findings : α → Context → Findings) :
    Findings := do
  let found ← rules.mapM fun (name, r) =>
    match active? c name with
    | some setting => findings r ⟨setting, c.conventions⟩
    | none => .ok []
  return found.flatten

def fileFindings (t : RuleTable) (c : Config) (file : String) (es : List Export) : Findings :=
  run c t.onFiles fun r context => r context file es

def projectFindings (t : RuleTable) (c : Config) (p : Project) : Findings :=
  run c t.onProject fun r context => r context p

/-- The issues of one file. -/
def checkFile (t : RuleTable) (c : Config) (file : String) (es : List Export) :
    Except Failure (List Issue) := do
  return Issue.numbered (← t.fileFindings c file es)

/-- The issues of a project. -/
def check (t : RuleTable) (c : Config) (p : Project) : Except Failure (List Issue) := do
  let onFiles ← p.exports.mapM fun (file, es) => t.fileFindings c file es
  return Issue.numbered (onFiles.flatten ++ (← t.projectFindings c p))

end RuleTable

end ExportLint
