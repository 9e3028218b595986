import ExportLint.Issue.Basic

/-!
# Selecting and grouping issues

Groups come in the order of their first issues, and the issues of a group in their own order.
-/
namespace ExportLint

/-- What an issue must be to be selected. What is left open admits all. -/
structure Selection where
  kinds : Option (List IssueKind) := none
  severities : Option (List Severity) := none
  files : Option (List String) := none
  deriving DecidableEq, Repr

def Selection.admits (s : Selection) (i : Issue) : Bool :=
  s.kinds.all (·.contains i.kind) && s.severities.all (·.contains i.severity) &&
    s.files.all (·.contains i.place)

namespace Issue

def select (s : Selection) (is : List Issue) : List Issue := is.filter s.admits

/-- The keys of some issues, each once. -/
def keys (key : Issue → String) (is : List Issue) : List String := (is.map key).eraseDups

def groups (key : Issue → String) (is : List Issue) : List (String × List Issue) :=
  (keys key is).map fun k => (k, is.filter fun i => key i == k)

/-- How many issues each key has. -/
def counts (key : Issue → String) (is : List Issue) : List (String × Nat) :=
  (keys key is).map fun k => (k, is.countP fun i => key i == k)

def kindName (i : Issue) : String := Named.name i.kind

def severityName (i : Issue) : String := Named.name i.severity

end Issue

end ExportLint
