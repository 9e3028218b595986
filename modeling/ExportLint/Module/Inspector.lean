import ExportLint.Module.Sources

/-!
# Inspectors

An inspector reads each file once and keeps what it read until it is set up anew or closed. An
inspector that was not set up is set up for the first file that it inspects.
-/
namespace ExportLint

structure Inspector where
  sources : Sources
  options : ReadOptions := {}
  /-- The files that it was set up for. -/
  files : List String := []
  ready : Bool := false
  known : List (String × ReadSource) := []
  deriving Repr

namespace Inspector

def setUp (i : Inspector) (files : List String) (options : ReadOptions) : Inspector :=
  { i with options, files, ready := true, known := [] }

def close (i : Inspector) : Inspector :=
  if i.ready then { i with files := [], ready := false, known := [] } else i

/-- A file as it was read first. Only what could be read is kept. -/
def source (i : Inspector) (file : String) : Except Failure ReadSource × Inspector :=
  match i.known.lookup file with
  | some r => (.ok r, i)
  | none =>
    match i.sources.text file >>= ReadSource.ofText i.options file with
    | .ok r => (.ok r, { i with known := (file, r) :: i.known })
    | .error e => (.error e, i)

/-- The inventory of a file. -/
def inspect (i : Inspector) (file : String) : Inventory × Inspector :=
  let i := if i.ready then i else i.setUp [file] {}
  let (r, i) := i.source file
  (.ofResult file r, i)

def inspectAll (i : Inspector) : List String → List Inventory × Inspector
  | [] => ([], i)
  | file :: files =>
    let (inventory, i) := i.inspect file
    let (rest, i) := i.inspectAll files
    (inventory :: rest, i)

/-- The inventory of a text that stands in no file. Nothing of it is kept. -/
def inspectText (i : Inspector) (file : String) (text : List Char) : Inventory :=
  .ofText i.options file text

end Inspector

/-- The inventories of some files, each once, by their first place in the list. -/
def inspectFiles (sources : Sources) (options : ReadOptions) (files : List String) :
    List Inventory :=
  let i : Inspector := { sources }
  ((i.setUp files options).inspectAll files.eraseDups).1

end ExportLint
