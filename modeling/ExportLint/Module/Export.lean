import ExportLint.Module.Location

/-!
# Exports

An export is a name that a file makes available to others. Some names stand for a form of export
and not for a symbol: the star, the default, the equals sign, and the name of what has none.
-/
namespace ExportLint

/-- What an export refers to. -/
inductive ExportKind where
  | interface
  | typeAlias
  | classDef
  | function
  | constant
  | component
  deriving DecidableEq, Repr

/-- In which way a symbol is exported. -/
inductive ExportForm where
  | named
  | default
  | wholeNamespace
  | reexport
  deriving DecidableEq, Repr

/-- The statement that exports a symbol. -/
inductive ExportShape where
  /-- Names in braces. -/
  | clause
  /-- A star with a name. -/
  | namespaceStar
  /-- A star alone. -/
  | star
  /-- A default value, or a value after an equals sign. -/
  | assignment
  /-- A declaration. -/
  | declaration
  deriving DecidableEq, Repr

namespace ExportKind

instance : Named ExportKind where
  all := [.interface, .typeAlias, .classDef, .function, .constant, .component]
  name
    | .interface => "interface"
    | .typeAlias => "type"
    | .classDef => "class"
    | .function => "function"
    | .constant => "constant"
    | .component => "component"

/-- Kinds that exist for the type checker only. -/
def isTypeLevel (k : ExportKind) : Bool := k == .interface || k == .typeAlias

end ExportKind

instance : Named ExportForm where
  all := [.named, .default, .wholeNamespace, .reexport]
  name
    | .named => "named"
    | .default => "default"
    | .wholeNamespace => "namespace"
    | .reexport => "reexport"

instance : Named ExportShape where
  all := [.clause, .namespaceStar, .star, .assignment, .declaration]
  name
    | .clause => "named_clause"
    | .namespaceStar => "namespace_export"
    | .star => "star_reexport"
    | .assignment => "export_assignment"
    | .declaration => "declaration"

/-- The name of everything. -/
def starName : String := "*"

def defaultName : String := "default"

def equalsName : String := "="

def anonymousName : String := "anonymous"

/-- The names that stand for a form of export. -/
def sentinelNames : List String := [starName, defaultName, equalsName, anonymousName]

/-- One exported name of a file. -/
structure Export where
  file : String
  name : String
  form : ExportForm
  kind : ExportKind := .constant
  typeOnly : Bool := false
  location : Location
  /-- Modules that the export refers to. The first one is the source of a re-export. -/
  dependencies : List String := []
  shape : ExportShape := .declaration
  /-- The name in the source module, where it differs. -/
  sourceName : Option String := none
  documentation : Option String := none
  deriving DecidableEq, Repr

namespace Export

def isSentinel (e : Export) : Bool := sentinelNames.contains e.name

/-- The module that a re-export takes its name from. -/
def source? (e : Export) : Option String :=
  if e.form = .reexport ∨ e.form = .wholeNamespace then e.dependencies.head? else none

/-- A name that is not empty. -/
def readName : Schema.Reader String := fun v =>
  (Schema.string v).andThen fun s =>
    if s.isEmpty then .fail "Value error, export_name must not be empty" else .valid s

def read : Schema.Reader Export :=
  Schema.record "ExportRecord" fun ms =>
    Export.mk <$> Schema.field ms "filePath" Schema.string
      <*> Schema.field ms "exportName" readName
      <*> Schema.field ms "exportType" Schema.named
      <*> Schema.fieldOr ms "exportedKind" .constant Schema.named
      <*> Schema.fieldOr ms "isTypeOnly" false Schema.boolean
      <*> Schema.field ms "sourceLocation" Location.read
      <*> Schema.fieldOr ms "dependencies" [] (Schema.list Schema.string)
      <*> Schema.fieldOr ms "shape" .declaration Schema.named
      <*> Schema.fieldOr ms "sourceName" none (Schema.optional Schema.string)
      <*> Schema.fieldOr ms "documentation" none (Schema.optional Schema.string)

def toJson (e : Export) : Json :=
  .obj <| [("filePath", .str e.file), ("exportName", .str e.name),
    ("exportType", .str (Named.name e.form)), ("exportedKind", .str (Named.name e.kind)),
    ("isTypeOnly", .bool e.typeOnly), ("sourceLocation", e.location.toJson),
    ("dependencies", Json.strings e.dependencies), ("shape", .str (Named.name e.shape))] ++
    Json.optional "sourceName" (e.sourceName.map .str) ++
    Json.optional "documentation" (e.documentation.map .str)

end Export

/-- The names that are exported more than once, in the order of their second occurrences. -/
def conflictingNames (records : List Export) : List String :=
  (go [] records).reverse
where
  go (seen : List String) : List Export → List String
    | [] => []
    | e :: es =>
      let rest := go (e.name :: seen) es
      if seen.count e.name = 1 then rest ++ [e.name] else rest

end ExportLint
