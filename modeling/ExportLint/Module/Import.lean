import ExportLint.Module.Location

/-!
# Imports

An import binds local names to what another module exports. One that binds nothing is made for its
effect.
-/
namespace ExportLint

/-- A name in the braces of an import. -/
structure ImportedName where
  name : String
  boundAs : Option String := none
  typeOnly : Bool := false
  deriving DecidableEq, Repr

namespace ImportedName

def localName (n : ImportedName) : String :=
  match n.boundAs with
  | some a => if a.isEmpty then n.name else a
  | none => n.name

def read : Schema.Reader ImportedName :=
  Schema.record "ImportedName" fun ms =>
    ImportedName.mk <$> Schema.field ms "name" Schema.string
      <*> Schema.fieldOr ms "alias" none (Schema.optional Schema.string)
      <*> Schema.fieldOr ms "isTypeOnly" false Schema.boolean

def toJson (n : ImportedName) : Json :=
  .obj <| [("name", .str n.name)] ++ Json.optional "alias" (n.boundAs.map .str) ++
    [("isTypeOnly", .bool n.typeOnly)]

end ImportedName

/-- One import statement. -/
structure Import where
  file : String
  specifier : String
  names : List ImportedName := []
  defaultName : Option String := none
  namespaceName : Option String := none
  typeOnly : Bool := false
  location : Location
  deriving DecidableEq, Repr

/-- A name that is there and not empty. -/
def givenName (n : Option String) : Option String := n.filter fun s => !s.isEmpty

namespace Import

def isSideEffectOnly (i : Import) : Bool :=
  i.names.isEmpty && i.defaultName.isNone && i.namespaceName.isNone

/-- The names that the import binds. -/
def boundNames (i : Import) : List String :=
  i.names.map (·.localName) ++ (givenName i.defaultName).toList ++
    (givenName i.namespaceName).toList

def read : Schema.Reader Import :=
  Schema.record "ImportRecord" fun ms =>
    Import.mk <$> Schema.field ms "filePath" Schema.string
      <*> Schema.field ms "moduleSpecifier" Schema.string
      <*> Schema.fieldOr ms "names" [] (Schema.list ImportedName.read)
      <*> Schema.fieldOr ms "defaultName" none (Schema.optional Schema.string)
      <*> Schema.fieldOr ms "namespaceName" none (Schema.optional Schema.string)
      <*> Schema.fieldOr ms "isTypeOnly" false Schema.boolean
      <*> Schema.field ms "sourceLocation" Location.read

def toJson (i : Import) : Json :=
  .obj <| [("filePath", .str i.file), ("moduleSpecifier", .str i.specifier),
    ("names", .arr (i.names.map (·.toJson)))] ++
    Json.optional "defaultName" (i.defaultName.map .str) ++
    Json.optional "namespaceName" (i.namespaceName.map .str) ++
    [("isTypeOnly", .bool i.typeOnly), ("sourceLocation", i.location.toJson)]

end Import

end ExportLint
