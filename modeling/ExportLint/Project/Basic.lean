import ExportLint.Disk.Basic
import ExportLint.Graph.Basic
import ExportLint.Module.Inventory
import ExportLint.Project.Resolver

/-!
# Projects

A project is what all files export, import and declare, in the order of a scan. Imports and
re-exports that resolve to files of the project tie its files together.
-/
namespace ExportLint

structure Project where
  /-- Where relative paths start. -/
  here : Place
  root : String
  exports : List (String × List Export)
  imports : List (String × List Import) := []
  declarations : List (String × Declarations) := []
  deriving Repr

/-- A name that a file takes from another one. -/
structure Use where
  target : String
  names : List String
  deriving DecidableEq, Repr

namespace Project

/-- The project of some inventories. Of those of one file the first counts. -/
def ofInventories (here : Place) (root : String) (is : List Inventory) : Project :=
  let files := is.eraseDupsBy fun a b => a.file == b.file
  { here
    root
    exports := files.map fun i => (i.file, i.exports)
    imports := files.map fun i => (i.file, i.imports)
    declarations := files.map fun i => (i.file, i.declarations) }

variable (p : Project)

def exportsOf (file : String) : List Export := (p.exports.lookup file).getD []

def importsOf (file : String) : List Import := (p.imports.lookup file).getD []

def declarationsOf (file : String) : Declarations := (p.declarations.lookup file).getD []

def hasExports (file : String) : Bool := (p.exports.lookup file).isSome

/-- Files with exports, then those that are known by their imports only. -/
def files : List String :=
  p.exports.map (·.1) ++ (p.imports.map (·.1)).filter fun f => !p.hasExports f

def resolver : Resolver := ⟨p.root, p.files⟩

def resolve? (importer specifier : String) : Option String :=
  p.resolver.resolve? importer specifier

/-- The module that an export takes its name from. -/
def sourceOf? (e : Export) : Option String := givenName e.source?

/-- The files that a file imports or re-exports from, each once. -/
def targets (file : String) : List String :=
  (((p.importsOf file).map (·.specifier) ++
    (p.exportsOf file).filterMap sourceOf?).filterMap (p.resolve? file)).eraseDups

/-- Which files lead to which. -/
def graph : Graph := p.files.map fun f => (f, p.targets f)

def exportedNames (file : String) : List String := (p.exportsOf file).map (·.name)

def exportsStar (file : String) : Bool := (p.exportedNames file).contains starName

def findExport? (file name : String) : Option Export :=
  (p.exportsOf file).find? fun e => e.name == name

/-- The kind of a name as a file declares or exports it. -/
def kindOf? (file name : String) : Option ExportKind :=
  ((p.declarationsOf file).lookup name).or ((p.findExport? file name).map (·.kind))

/-- An import with the file of the project that it takes from. -/
structure Link where
  importer : String
  statement : Import
  target : String
  deriving DecidableEq, Repr

/-- The imports that resolve to files of the project. -/
def links : List Link :=
  p.files.flatMap fun f =>
    (p.importsOf f).filterMap fun i => (p.resolve? f i.specifier).map fun t => ⟨f, i, t⟩

/-- The names that an import takes. A star stands for all. -/
def importedNames (i : Import) : List String :=
  i.names.map (·.name) ++ (givenName i.defaultName).toList.map (fun _ => defaultName) ++
    if (givenName i.namespaceName).isSome || i.isSideEffectOnly then [starName] else []

/-- The name that a re-export takes. A star stands for all. -/
def forwardedName (e : Export) : String :=
  if e.shape = .clause then (givenName e.sourceName).getD e.name else starName

/-- What files take from each other: first by imports, then by re-exports. -/
def uses : List Use :=
  p.links.map (fun l => ⟨l.target, importedNames l.statement⟩) ++
    p.files.flatMap fun f => (p.exportsOf f).filterMap fun e =>
      ((sourceOf? e).bind (p.resolve? f)).map fun t => ⟨t, [forwardedName e]⟩

/-- The names that are taken from a file. -/
def usedNames (file : String) : List String :=
  (p.uses.filter fun u => u.target == file).flatMap (·.names)

/-- A file as seen from the root. -/
def relative (file : String) : String :=
  match Path.relative? p.here file p.root with
  | some text => Path.tidy text
  | none => Path.tidy file

end Project

end ExportLint
