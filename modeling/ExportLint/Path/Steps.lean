import ExportLint.Text.Lines

/-!
# Path algebra on texts

Paths are texts whose steps stand between slashes. Normalizing drops empty steps and single points
and lets a double point cancel the step before it. No file system is consulted.
-/
namespace ExportLint.Path

open Text (splitAtChar)

/-- The steps of a text, empty ones and single points left out. -/
def stepsOf (p : String) : List String :=
  (splitAtChar '/' p).filter fun s => !s.isEmpty && s != "."

/-- One step further, from the steps taken so far, the last one first. Without a root, a double
point that cancels nothing stays. -/
def climb (rooted : Bool) (taken : List String) (step : String) : List String :=
  if step = ".." then
    match taken with
    | [] => if rooted then [] else [".."]
    | t :: ts => if t = ".." then ".." :: t :: ts else ts
  else step :: taken

def reduce (rooted : Bool) (ss : List String) : List String :=
  (ss.foldl (climb rooted) []).reverse

/-- The slashes that a path starts with: none, one, or exactly two. -/
def rootOf (p : String) : String :=
  match p.toList with
  | '/' :: '/' :: '/' :: _ => "/"
  | '/' :: '/' :: _ => "//"
  | '/' :: _ => "/"
  | _ => ""

/-- The normal form of a path; that of the current directory is a single point. -/
def normal (p : String) : String :=
  let root := rootOf p
  let text := root ++ "/".intercalate (reduce (root != "") (stepsOf p))
  if text.isEmpty then "." else text

/-- A path seen from a directory. A path with a root stands for itself. -/
def join (a b : String) : String :=
  if b.toList.head? = some '/' then b
  else if a.isEmpty || a.toList.getLast? = some '/' then a ++ b
  else a ++ "/" ++ b

/-- Everything before the last slash, without slashes at its end unless it has nothing else. -/
def directory (p : String) : String :=
  let cs := p.toList.reverse.dropWhile (· ≠ '/')
  let head := cs.dropWhile (· = '/')
  String.ofList (if head.isEmpty then cs.reverse else head.reverse)

/-- A path as what comes before its extension and the extension, which starts with the last point
of the last step. Points at the start of the step do not count. -/
def splitExtension (p : String) : String × String :=
  let cs := p.toList
  let last := (cs.reverse.takeWhile (· ≠ '/')).reverse
  let tail := (last.reverse.takeWhile (· ≠ '.')).reverse
  let head := last.take (last.length - tail.length - 1)
  if tail.length = last.length || head.all (· = '.') then (p, "")
  else
    let n := cs.length - tail.length - 1
    (String.ofList (cs.take n), String.ofList (cs.drop n))

/-- The steps from the root to a path, given those to the current directory. -/
def absolute (here : List String) (p : String) : List String :=
  if rootOf p = "" then reduce true (here ++ stepsOf p) else reduce true (stepsOf p)

/-- What two lists of steps begin with in common. -/
def commonLead : List String → List String → Nat
  | a :: as, b :: bs => if a = b then commonLead as bs + 1 else 0
  | _, _ => 0

/-- The steps from one place to another. -/
def stepsBetween (start target : List String) : List String :=
  let n := commonLead start target
  List.replicate (start.length - n) ".." ++ target.drop n

/-- A path seen from a start: none for the empty path. -/
def relative? (here : List String) (p start : String) : Option String :=
  if p.isEmpty then none
  else
    match stepsBetween (absolute here start) (absolute here p) with
    | [] => some "."
    | ss => some ("/".intercalate ss)

end ExportLint.Path
