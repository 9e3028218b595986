import ExportLint.Config.Basic
import ExportLint.Disk.Basic
import ExportLint.Scan.Glob
import ExportLint.Text.CaseMap

/-!
# Finding files

A scan lists the files below a root that the options accept. Directories that are excluded as a
whole are not entered, and neither are those below the greatest depth. Files come in the order of
their paths.
-/
namespace ExportLint

/-- Suffixes of files that may hold markup. -/
def markupSuffixes : List String := [".tsx", ".jsx"]

/-- Suffixes of files without markup. -/
def plainSuffixes : List String := [".ts", ".mts", ".cts", ".js", ".mjs", ".cjs"]

def suffixOf (path : String) : String := Text.CaseMap.lower (Path.parse path).suffix

/-- A file may hold markup. -/
def holdsMarkup (path : String) : Bool := markupSuffixes.contains (suffixOf path)

def isSourceFile (path : String) : Bool :=
  markupSuffixes.contains (suffixOf path) || plainSuffixes.contains (suffixOf path)

namespace ScanOptions

/-- A file is a source, included, and not excluded. -/
def accepts (o : ScanOptions) (path : String) : Bool :=
  isSourceFile path && matchesAny o.included path && !matchesAny o.excluded path

/-- Everything below a directory is excluded. -/
def excludesDirectory (o : ScanOptions) (path : String) : Bool :=
  matchesAny o.excluded (path ++ "/")

/-- Directories at a depth may be entered. -/
def entersFrom (o : ScanOptions) (depth : Nat) : Bool :=
  o.recursive && o.maxDepth.all fun n => (depth : Int) < n

end ScanOptions

namespace Disk

/-- Accepted files below a directory, as steps from the root. -/
def walk (d : Disk) (o : ScanOptions) (root : Path) : Nat → List String → List String
  | 0, _ => []
  | fuel + 1, steps =>
    let path (ss : List String) : String := (root ++ ⟨"", ss⟩).text
    match d.locate true (path steps) with
    | .error _ => []
    | .ok place =>
      let names := d.list place
      let directories := names.filter fun n => d.isDirectory (path (steps ++ [n]))
      let files := names.filter fun n => !d.isDirectory (path (steps ++ [n]))
      let here := (files.map fun n => "/".intercalate (steps ++ [n])).filter o.accepts
      let entered :=
        if o.entersFrom steps.length then
          directories.filter fun n =>
            !o.excludesDirectory ("/".intercalate (steps ++ [n])) &&
              (o.followLinks || !d.isLink (path (steps ++ [n])))
        else []
      here ++ entered.flatMap fun n => d.walk o root fuel (steps ++ [n])

/-- Every path that can be followed is shorter than this. -/
def depthBound (d : Disk) : Nat := (linkLimit + 1) * (d.entries.length + 1) + 1

/-- The files of a scan. A root that is no directory has none. -/
def scan (d : Disk) (o : ScanOptions) (root : String) : List String :=
  let path := Path.parse root
  if d.isDirectory path.text then
    ((d.walk o path d.depthBound []).mergeSort fun a b => decide (a ≤ b)).map fun f =>
      (path ++ Path.parse f).text
  else []

end Disk

end ExportLint
