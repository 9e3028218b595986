import ExportLint.Config.Check
import ExportLint.Issue.Basic
import ExportLint.Project.Basic

/-!
# Rules

A rule looks at the exports of one file, or at the project as a whole, and reports what it finds.
Its options are free-form: a list of names may also be given as a text, which stands for its
characters, or as an object, which stands for its keys.
-/
namespace ExportLint

namespace Rule

/-- What a rule works with besides what it looks at. -/
structure Context where
  setting : RuleSetting
  conventions : Conventions
  deriving Repr

abbrev Findings := Except Failure (List Finding)

namespace Context

/-- A finding of the rule. -/
def finding (c : Context) (kind : IssueKind) (file message : String) : Finding where
  kind
  severity := c.setting.severity
  file
  message
  rule := some c.setting.name

def option? (c : Context) (key : String) : Option Json := c.setting.options.get? key

def flag (c : Context) (key : String) (default : Bool) : Bool :=
  (c.option? key).elim default (·.isTruthy)

/-- The values that an option lists. An empty value lists none. -/
def values (c : Context) (key : String) (default : List Json) : Except Failure (List Json) :=
  match c.option? key with
  | none => .ok default
  | some v =>
    if !v.isTruthy then .ok []
    else
      match v with
      | .arr vs => .ok vs
      | .str s => .ok (s.toList.map fun ch => .str (String.singleton ch))
      | .obj ms => .ok (ms.map fun m => .str m.1)
      | _ => .error .wrongType

/-- The texts of a set. Lists and objects cannot be its members; other values are no names. -/
def textsOf : List Json → Except Failure (List String)
  | [] => .ok []
  | .str s :: vs => (s :: ·) <$> textsOf vs
  | .arr _ :: _ | .obj _ :: _ => .error .wrongType
  | _ :: vs => textsOf vs

def names (c : Context) (key : String) (default : List String) : Except Failure (List String) := do
  textsOf (← c.values key (default.map .str))

end Context

/-- A pattern occurs in a name. -/
def occurs (pattern name : String) : Except Failure Bool :=
  match Pattern.read pattern with
  | .ok p => .ok (p.occursIn name)
  | .error .hugeCount => .error .hugeCount
  | .error .mixedFlags => .error .mixedFlags
  | .error _ => .error .badPattern

end Rule

/-- A rule on the exports of one file. -/
abbrev FileRule := Rule.Context → String → List Export → Rule.Findings

/-- A rule on a project. -/
abbrev ProjectRule := Rule.Context → Project → Rule.Findings

end ExportLint
