import ExportLint.Config.Basic
import ExportLint.Fix.Clause
import ExportLint.Fix.Replacement
import ExportLint.Json.Display
import ExportLint.Naming.CaseStyle

/-!
# Proposing edits

A fixable issue proposes an edit of a line of its file: a name is changed, a duplicate line dropped,
a missing export added at the end, or a clause tidied. Where nothing would change there is no
edit.
-/
namespace ExportLint.Fix

/-- Lines of a file that an issue is at, with the number of that line. -/
def lineOf? (lines : List String) (i : Issue) : Option (Int × String) := do
  let n ← i.line
  guard (1 ≤ n)
  return (n, ← lines[(n - 1).toNat]?)

/-- A value of the metadata that is there and not empty. -/
def given? (i : Issue) (key : String) : Option Json :=
  (i.metadata.get? key).filter (·.isTruthy)

/-- The style that a value names. -/
def styleOf : Json → Except Failure CaseStyle
  | .str s => memberNamed "CaseStyle" s
  | v => .error (.notMember v.shown "CaseStyle")

/-- The name that an issue suggests, or the old one in the style for its kind. -/
def newName (c : Conventions) (i : Issue) (old : Json) : Except Failure Json :=
  match given? i "suggestedName" with
  | some new => .ok new
  | none => do
    let style ← match given? i "caseStyle" with
      | some v => styleOf v
      | none => pure c.functions.style
    match old with
    | .str s => return .str (style.apply s)
    | _ => .error .wrongType

def renameEdit (c : Conventions) (file : String) (lines : List String) (i : Issue) :
    Except Failure (Option Edit) :=
  match lineOf? lines i, given? i "exportName" with
  | some (n, current), some old => do
    let new ← newName c i old
    if new.equal old then return none
    match old, new with
    | .str old, .str new =>
      let text ← Replacement.expand old.toList new.toList
      let updated := String.ofList (Replacement.replaceFirst old.toList text none current.toList)
      if updated = current then return none
      return some { kind := .rename, file, line := some n, expected := some current,
                    text := updated, description := "Rename '" ++ old ++ "' to '" ++ new ++
                      "' to match the naming convention", issue := some i.id,
                    oldName := some old, newName := some new }
    | _, _ => .error .wrongType
  | _, _ => .ok none

def removeEdit (file : String) (lines : List String) (i : Issue) : Option Edit :=
  (lineOf? lines i).map fun (n, current) =>
    let name := ((i.metadata.get? "exportName").map (·.display)).getD "unknown"
    { kind := .remove, file, line := some n, expected := some current, text := "",
      description := "Remove duplicate export '" ++ name ++ "'", issue := some i.id }

/-- A line of a file whose first line ends like this one. -/
def withEndingOf (lines : List String) (statement : String) : String :=
  match lines with
  | first :: _ => if first.toList.getLast? = some '\r' then statement ++ "\r" else statement
  | [] => statement

/-- The number of the last line, an empty one at the end not counted. -/
def lastLine (lines : List String) : Nat :=
  if lines.getLast? = some "" then lines.length - 1 else lines.length

def addEdit (file : String) (lines : List String) (i : Issue) : Option Edit :=
  (given? i "exportName").map fun v =>
    let name := v.display
    let asDefault := match i.metadata.get? "exportType" with
      | some (.str s) => s == defaultName
      | _ => false
    let statement := if asDefault then "export default " ++ name ++ ";"
      else "export \x7b " ++ name ++ " \x7d;"
    { kind := .add, file, line := some (lastLine lines), text := withEndingOf lines statement,
      description := "Add missing export '" ++ name ++ "'", issue := some i.id }

/-- A text behind its blanks starts with a lead. -/
def opensWith (lead text : String) : Bool :=
  Text.startsWith lead.toList (Text.trimLeft text.toList)

def reorderEdit (file : String) (lines : List String) (i : Issue) : Option Edit := do
  let (n, current) ← lineOf? lines i
  let updated ← tidyClause true none current
  guard (updated ≠ current ∧ opensWith "export" updated)
  return { kind := .reorder, file, line := some n, expected := some current, text := updated,
           description := "Sort export specifiers", issue := some i.id }

def formatEdit (file : String) (lines : List String) (i : Issue) : Except Failure (Option Edit) :=
  match lineOf? lines i with
  | none => .ok none
  | some (n, current) =>
    match (i.metadata.get? "statement").getD (.str "export") with
    | .str statement => .ok do
      guard (opensWith statement current)
      let typeOnly := if (given? i "typeOnly").isSome then some true else none
      let updated ← tidyClause false typeOnly current
      guard (updated ≠ current)
      return { kind := .format, file, line := some n, expected := some current, text := updated,
               description := "Use type-only " ++ statement ++ " syntax", issue := some i.id }
    | _ => .error .wrongType

/-- The edit for an issue, if it has one. -/
def edit? (c : Conventions) (file : String) (lines : List String) (i : Issue) :
    Except Failure (Option Edit) :=
  match Category.ofIssue? i.kind with
  | some .naming => renameEdit c file lines i
  | some .duplicates => .ok (removeEdit file lines i)
  | some .missing => .ok (addEdit file lines i)
  | some .ordering => .ok (reorderEdit file lines i)
  | some .formatting => formatEdit file lines i
  | none => .ok none

/-- An issue that is to be fixed: one of a category that is chosen, if some are. -/
def isChosen (categories : Option (List Category)) (i : Issue) : Bool :=
  i.autoFixable && (Category.ofIssue? i.kind).any fun g => categories.all (·.contains g)

/-- The edits for the issues of a file with some lines. -/
def editsFor (c : Conventions) (file : String) (lines : List String) (is : List Issue) :
    Except Failure (List Edit) := do
  return (← is.mapM (edit? c file lines)).filterMap id

end ExportLint.Fix
