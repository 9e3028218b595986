import ExportLint.Module.Export
import ExportLint.Module.Import

/-!
# Inventories

What is known about one file: its exports, its imports, the names that it declares at the top level,
and why it could not be read.
-/
namespace ExportLint

/-- Top-level names with their kinds. The first declaration of a name decides. -/
abbrev Declarations := List (String × ExportKind)

namespace Declarations

/-- Declare a name unless it is declared already. -/
def insert (ds : Declarations) (name : String) (kind : ExportKind) : Declarations :=
  if (ds.lookup name).isSome then ds else ds ++ [(name, kind)]

def read : Schema.Reader Declarations := Schema.dictionary Schema.named

def toJson (ds : Declarations) : Json :=
  .obj (ds.map fun (name, kind) => (name, .str (Named.name kind)))

end Declarations

structure Inventory where
  file : String
  exports : List Export := []
  imports : List Import := []
  declarations : Declarations := []
  errors : List String := []
  deriving Repr

namespace Inventory

def exportNames (i : Inventory) : List String := (i.exports.map (·.name)).eraseDups

def read : Schema.Reader Inventory :=
  Schema.record "ModuleInventory" fun ms =>
    Inventory.mk <$> Schema.field ms "filePath" Schema.string
      <*> Schema.fieldOr ms "exports" [] (Schema.list Export.read)
      <*> Schema.fieldOr ms "imports" [] (Schema.list Import.read)
      <*> Schema.fieldOr ms "declarations" [] Declarations.read
      <*> Schema.fieldOr ms "errors" [] (Schema.list Schema.string)

def toJson (i : Inventory) : Json :=
  .obj [("filePath", .str i.file), ("exports", .arr (i.exports.map (·.toJson))),
    ("imports", .arr (i.imports.map (·.toJson))), ("declarations", i.declarations.toJson),
    ("errors", Json.strings i.errors)]

end Inventory

end ExportLint
