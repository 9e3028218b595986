import ExportLint.Text.CaseMap

/-!
# The words of an identifier

A word is a run of capitals, a run of small letters with at most one capital in front, or a run of
digits. The last capital of a run belongs to the small letters that follow it. Everything else
separates words.
-/
namespace ExportLint.Naming

open Text (Letter.isAsciiUpper Letter.isAsciiLower Letter.isDigit)

def isUpper (c : Char) : Bool := Letter.isAsciiUpper c

def isLower (c : Char) : Bool := Letter.isAsciiLower c

def isDigit (c : Char) : Bool := Letter.isDigit c

def startsLower (cs : List Char) : Bool := cs.head?.any isLower

/-- The length of the word that starts here: zero if none does. -/
def wordLength (cs : List Char) : Nat :=
  let capitals := (cs.takeWhile isUpper).length
  let rest := cs.drop capitals
  if startsLower rest then
    if capitals ≤ 1 then capitals + (rest.takeWhile isLower).length else capitals - 1
  else if 0 < capitals then capitals
  else (cs.takeWhile isDigit).length

/-- The words in order, as they are written. -/
def rawWords : List Char → List (List Char)
  | [] => []
  | c :: cs =>
    match wordLength (c :: cs) with
    | 0 => rawWords cs
    | n + 1 => (c :: cs).take (n + 1) :: rawWords (cs.drop n)
termination_by cs => cs.length
decreasing_by all_goals simp; try omega

/-- The words of an identifier in lower case. -/
def words (name : String) : List (List Char) :=
  (rawWords name.toList).map (·.map Text.CaseMap.asciiLower)

def splitWords (name : String) : List String := (words name).map String.ofList

end ExportLint.Naming
