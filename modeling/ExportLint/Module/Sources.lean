import ExportLint.Config.Draft
import ExportLint.Module.Detection
import ExportLint.Syntax.Reader

/-!
# Sources

Texts of files come from a disk, or from a table that stands in for one. A text is read into a
syntax tree within limits; why that fails is part of the inventory of the file.
-/
namespace ExportLint

inductive Sources where
  | onDisk (disk : Disk)
  | inMemory (texts : List (String × String))
  deriving Repr

/-- The text of a file on a disk. Line ends are line feeds. -/
def Disk.readText (d : Disk) (path : String) : Except Failure (List Char) :=
  match d.readBytes path with
  | .error e => .error (.disk e)
  | .ok bytes =>
    match Text.Utf8.decode bytes with
    | .error e => .error (.encoding e)
    | .ok cs => .ok (Text.universalNewlines cs)

namespace Sources

def text (s : Sources) (file : String) : Except Failure (List Char) :=
  match s with
  | .onDisk d => if d.isFile file then d.readText file else .error (.sourceMissing file)
  | .inMemory texts =>
    match texts.lookup file with
    | some t => .ok t.toList
    | none => .error (.sourceMissing file)

end Sources

/-- What is read at all. -/
structure ReadOptions where
  /-- Refuse a source with faults in it. -/
  strict : Bool := true
  maxBytes : Int := 2000000
  deriving DecidableEq, Repr

/-- A source with its syntax tree. -/
structure ReadSource where
  source : Source
  root : Node
  deriving Repr

namespace ReadSource

def ofText (o : ReadOptions) (file : String) (text : List Char) : Except Failure ReadSource :=
  if o.maxBytes < Syntax.byteLength text then
    .error (.sourceRefused file ("file exceeds " ++ toString o.maxBytes ++ " bytes"))
  else
    match Syntax.read? (holdsMarkup file) o.strict text with
    | some root => .ok ⟨⟨file, Text.Utf8.encode (String.ofList text)⟩, root⟩
    | none => .error (.sourceRefused file "syntax errors in source")

def inventory (r : ReadSource) : Inventory := Inventory.ofTree r.source r.root

/-- The statements that export something. -/
def exportStatements (r : ReadSource) : List Node :=
  r.root.children.filter fun n => n.kind == "export_statement"

end ReadSource

/-- The inventory of a file that was read, or a bare one that says why it could not be. -/
def Inventory.ofResult (file : String) : Except Failure ReadSource → Inventory
  | .ok r => r.inventory
  | .error e => { file, errors := [e.message] }

/-- The inventory of a text. -/
def Inventory.ofText (o : ReadOptions) (file : String) (text : List Char) : Inventory :=
  .ofResult file (ReadSource.ofText o file text)

end ExportLint
