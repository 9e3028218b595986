import ExportLint.Path.Steps

/-!
# Paths

A path is a root, if it has one, and steps. Double points are steps like any other: where they lead
depends on links.
-/
namespace ExportLint

structure Path where
  root : String
  steps : List String
  deriving DecidableEq, Repr

namespace Path

def parse (p : String) : Path := ⟨rootOf p, stepsOf p⟩

def text (p : Path) : String :=
  if p.root.isEmpty && p.steps.isEmpty then "." else p.root ++ "/".intercalate p.steps

/-- The text of a path with needless slashes and points left out. -/
def tidy (p : String) : String := (parse p).text

def name (p : Path) : String := p.steps.getLast?.getD ""

def parent (p : Path) : Path := { p with steps := p.steps.dropLast }

/-- A path below another one. A path with a root stands for itself. -/
def append (p q : Path) : Path :=
  if q.root.isEmpty then { p with steps := p.steps ++ q.steps } else q

instance : Append Path := ⟨append⟩

/-- The name from its last point on, unless that starts or ends the name. -/
def suffix (p : Path) : String :=
  let cs := p.name.toList
  let tail := (cs.reverse.takeWhile (· ≠ '.')).reverse
  if tail.length = cs.length || tail.isEmpty || cs.length = tail.length + 1 then ""
  else String.ofList ('.' :: tail)

/-- The name up to its first point. -/
def stem (p : Path) : String := String.ofList (p.name.toList.takeWhile (· ≠ '.'))

/-- The steps of a path, its root among them. -/
def parts (p : Path) : List String := if p.root.isEmpty then p.steps else p.root :: p.steps

def ofParts : List String → Path
  | [] => ⟨"", []⟩
  | a :: rest => if a = "/" ∨ a = "//" then ⟨a, rest⟩ else ⟨"", a :: rest⟩

def isWithin (p q : Path) : Bool := p.root == q.root && q.steps.isPrefixOf p.steps

end Path

end ExportLint
