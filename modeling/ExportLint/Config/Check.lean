import ExportLint.Config.Basic
import ExportLint.Failure
import ExportLint.Json.Display
import ExportLint.Pattern.Search

/-!
# Checking a configuration

A configuration that can be read may still make no sense. Everything that is wrong is reported in
the order of the fields; warnings do not make a configuration invalid.
-/
namespace ExportLint.Config

structure Verdict where
  errors : List String
  warnings : List String := []
  deriving DecidableEq, Repr

namespace Verdict

def isValid (v : Verdict) : Bool := v.errors.isEmpty

def append (v w : Verdict) : Verdict := ⟨v.errors ++ w.errors, v.warnings ++ w.warnings⟩

instance : Append Verdict := ⟨append⟩

def error (text : String) : Verdict := ⟨[text], []⟩

def warning (text : String) : Verdict := ⟨[], [text]⟩

def fine : Verdict := ⟨[], []⟩

def joined (vs : List Verdict) : Verdict := vs.foldl (· ++ ·) fine

def toJson (v : Verdict) : Json :=
  .obj [("isValid", .bool v.isValid), ("errors", Json.strings v.errors),
    ("warnings", Json.strings v.warnings)]

end Verdict

def checkRoot (d : Disk) (root : String) : Verdict :=
  if root.isEmpty then .error "rootPath is required"
  else if d.exists? (Path.tidy root) then .fine
  else .error ("rootPath does not exist: " ++ root)

def checkScan (o : ScanOptions) : Verdict :=
  .joined <|
    [if o.included.isEmpty then .error "scanOptions.include must be a non-empty array"
      else .fine] ++
    ((o.included.filter (·.isEmpty)).map fun _ =>
      .error "scanOptions.include must not contain empty patterns") ++
    [if o.maxDepth.any (· < 1) then
        .error "scanOptions.maxDepth must be a number greater than 0"
      else .fine]

/-- Rules need names. The names seen so far are not to come again. -/
def checkRules (position : Nat) (seen : List String) : List RuleSetting → Verdict
  | [] => .fine
  | r :: rs =>
    if r.name.isEmpty then
      Verdict.error ("Rule " ++ toString position ++ " is missing name property") ++
        checkRules (position + 1) seen rs
    else
      (if seen.contains r.name then
          Verdict.warning ("Rule " ++ r.name ++ " is defined more than once")
        else .fine) ++
      (if r.description.isEmpty then
          Verdict.warning ("Rule " ++ r.name ++ " is missing description property")
        else .fine) ++
      checkRules (position + 1) (r.name :: seen) rs

/-- A pattern can be read. A count too large to hold, and flags for two alphabets at once, are failures
of their own. -/
def isPattern (text : String) : Except Failure Bool :=
  match Pattern.read text with
  | .ok _ => .ok true
  | .error .hugeCount => .error .hugeCount
  | .error .mixedFlags => .error .mixedFlags
  | .error _ => .ok false

def checkConvention (field : String) (c : Convention) : Except Failure Verdict :=
  if c.pattern.isEmpty then .ok (.warning ("Missing naming convention for " ++ field))
  else do
    if ← isPattern c.pattern then .ok .fine
    else .ok <| .error <|
      "Invalid regex pattern for " ++ field ++ " naming convention: " ++ c.pattern

/-- An option that holds a pattern, if it is set. -/
def checkPatternOption (options : Json.Members) (key : String) : Except Failure Verdict :=
  let refused (v : Json) : Verdict :=
    .error ("Invalid regex pattern for consistent-naming option " ++ key ++ ": " ++ v.display)
  match options.get? key with
  | none | some .null => .ok .fine
  | some (.str s) => do if ← isPattern s then .ok .fine else .ok (refused (.str s))
  | some v => .ok (refused v)

def namingRule : String := "consistent-naming"

def check (d : Disk) (c : Config) : Except Failure Verdict := do
  let conventions ← (Named.all : List ExportKind).mapM fun k =>
    checkConvention (Conventions.fieldOf k) (c.conventions.forKind k)
  let options ← match c.rule? namingRule with
    | none => pure []
    | some r => ["defaultExport", "namedExport"].mapM (checkPatternOption r.options)
  return checkRoot d c.rootPath ++ checkScan c.scan ++ checkRules 0 [] c.rules ++
    .joined conventions ++ .joined options

/-- The configuration that settings describe, if they can be read, and what is to be said. -/
def ofData (d : Disk) (data : Json) : Except Failure (Option Config × Verdict) :=
  match read data with
  | .valid c => do return (some c, ← check d c)
  | .invalid faults => .ok (none, ⟨faults.map (·.text), []⟩)

end ExportLint.Config
