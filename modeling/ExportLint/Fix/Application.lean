import ExportLint.Fix.Edit

/-!
# Applying edits

The edits of a file are applied from its last line upwards, so that none moves the lines of those
still to come. At one line, insertions come before a replacement, and the last insertion first, so
that new lines end up in the order of their edits.
-/
namespace ExportLint.Fix

/-- Why an edit cannot be applied. -/
inductive EditFault where
  | noLine
  | outOfRange (line : Int)
  /-- The line does not hold what it is to hold. -/
  | stale (line : Int)
  deriving DecidableEq, Repr

def EditFault.message : EditFault → String
  | .noLine => "Operation has no line number"
  | .outOfRange n => "Line " ++ toString n ++ " is out of range"
  | .stale n => "Stale operation: line " ++ toString n ++ " no longer matches"

/-- The number of lines that an insertion goes behind. -/
def insertionPoint (lines : List String) (line : Int) : Nat := min line.toNat lines.length

/-- Lines with a new one behind the first `n`. -/
def insertLine (lines : List String) (n : Nat) (text : String) : List String :=
  lines.take n ++ text :: lines.drop n

/-- Lines after one edit. -/
def applyEdit (lines : List String) (e : Edit) : Except EditFault (List String) :=
  match e.line with
  | none => .error .noLine
  | some n =>
    if e.kind = .add then .ok (insertLine lines (insertionPoint lines n) e.text)
    else if n < 1 ∨ (lines.length : Int) < n then .error (.outOfRange n)
    else
      let k := (n - 1).toNat
      if e.expected.any fun t => lines[k]? != some t then .error (.stale n)
      else if e.kind = .remove then .ok (lines.eraseIdx k)
      else .ok (lines.set k e.text)

/-- Which of two edits with their positions is applied first. -/
def runsBefore (a b : Edit × Nat) : Bool :=
  let m := a.1.line.getD 0
  let n := b.1.line.getD 0
  if m ≠ n then decide (n < m)
  else
    match a.1.kind.replacesLine, b.1.kind.replacesLine with
    | false, true => true
    | true, false => false
    | true, true => decide (a.2 ≤ b.2)
    | false, false => decide (b.2 ≤ a.2)

/-- Edits with their positions, in the order in which they are applied. -/
def runOrder (edits : List Edit) : List (Edit × Nat) := edits.zipIdx.mergeSort runsBefore

/-- Apply edits one after the other. The fault of each one that fails is kept with its position. -/
def applyInTurn : List (Edit × Nat) → List String → List (Nat × EditFault) × List String
  | [], lines => ([], lines)
  | (e, i) :: rest, lines =>
    match applyEdit lines e with
    | .ok next => applyInTurn rest next
    | .error fault =>
      let (faults, final) := applyInTurn rest lines
      ((i, fault) :: faults, final)

/-- The fault of each edit, if it has one, and the lines after all of them. -/
def applyEdits (lines : List String) (edits : List Edit) :
    List (Edit × Option EditFault) × List String :=
  let (faults, final) := applyInTurn (runOrder edits) lines
  (edits.zipIdx.map fun (e, i) => (e, faults.lookup i), final)

/-- Two edits would replace one line by different texts. -/
def conflict (a b : Edit) : Bool :=
  a.kind.replacesLine && b.kind.replacesLine && a.line.isSome && a.file == b.file &&
    a.line == b.line && a.text != b.text

/-- An edit conflicts with one of some edits. -/
def conflictsWith (edits : List Edit) (e : Edit) : Bool := edits.any (conflict e)

/-- The places that some edits replace by different texts. -/
def conflictingPlaces (edits : List Edit) : List (String × Int) :=
  ((edits.filter (conflictsWith edits)).filterMap fun e => e.line.map (e.file, ·)).eraseDups

end ExportLint.Fix
