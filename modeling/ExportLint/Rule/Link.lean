import ExportLint.Rule.Basic
import ExportLint.Scan.Glob

/-!
# Rules on what files take from each other

Imported names are exported, exported names are imported, and internal modules are imported from
inside their boundary. A name that a file declares and does not export is missing there; any other
name that it does not export is a mistake of the importing file.
-/
namespace ExportLint.Rule

/-- A name that an import asks for. -/
structure Wanted where
  link : Project.Link
  name : String
  deriving DecidableEq, Repr

def wantedNames (i : Import) : List String :=
  i.names.map (·.name) ++ (givenName i.defaultName).toList.map fun _ => defaultName

/-- A file exports a name, as far as is known: a file that exports all of another one may export
anything, and a whole value serves as a default. -/
def provides (p : Project) (file name : String) : Bool :=
  p.exportsStar file || (p.exportedNames file).contains name ||
    (name == defaultName && (p.exportedNames file).contains equalsName)

/-- The imported names that their files do not export. -/
def unmet (p : Project) : List Wanted :=
  p.links.flatMap fun l =>
    ((wantedNames l.statement).filter fun n => !provides p l.target n).map fun n => ⟨l, n⟩

/-- A name that is missing among the exports of a file, with the kind that it is declared with. -/
structure Missing where
  target : String
  name : String
  kind : ExportKind
  deriving DecidableEq, Repr

/-- What is missing for a wanted name: an export, if the name is declared in its file. -/
def missingExport? (p : Project) (w : Wanted) : Option Missing :=
  if w.name = defaultName then none
  else ((p.declarationsOf w.link.target).lookup w.name).map (⟨w.link.target, w.name, ·⟩)

/-- What is to be said on a wanted name that its file does not export. -/
def mismatch (c : Context) (p : Project) (w : Wanted) : Finding :=
  let specifier := w.link.statement.specifier
  let what := if w.name = defaultName then "a default export" else "'" ++ w.name ++ "'"
  { c.finding .importMismatch w.link.importer ("'" ++ specifier ++ "' does not export " ++ what)
      with
    suggestion := some
      ("Check the import against the exports of " ++ p.relative w.link.target)
    relatedFiles := [w.link.importer, w.link.target]
    location := some w.link.statement.location
    metadata := [("exportName", .str w.name), ("moduleSpecifier", .str specifier),
      ("scope", .str "project")] }

/-- Imported names exist in the files that they are imported from. -/
def importsMatchExports : ProjectRule := fun c p =>
  .ok <| ((unmet p).filter fun w => (missingExport? p w).isNone).map (mismatch c p)

/-- The files that import a missing name, each once. -/
def importersOf (p : Project) (m : Missing) : List String :=
  (((unmet p).filter fun w => missingExport? p w == some m).map (·.link.importer)).eraseDups

/-- Declared names that other files import are exported. -/
def importedNamesAreExported : ProjectRule := fun c p =>
  .ok <| (((unmet p).filterMap (missingExport? p)).eraseDups).map fun m =>
    let files := importersOf p m
    { c.finding .missingExport m.target ("'" ++ m.name ++ "' is imported by " ++
        ", ".intercalate (files.map p.relative) ++ " but not exported") with
      suggestion := some ("Add 'export \x7b " ++ m.name ++ " \x7d;'")
      autoFixable := true
      relatedFiles := m.target :: files
      metadata := [("exportName", .str m.name), ("exportedKind", .str (Named.name m.kind)),
        ("scope", .str "project")] }

/-- A path matches one of some globs. The first match decides; only texts are globs. -/
def matchesOneOf (path : String) : List Json → Except Failure Bool
  | [] => .ok false
  | .str g :: gs => if globMatches g path then .ok true else matchesOneOf path gs
  | _ :: _ => .error .wrongType

/-- What is to be said on the exports of one file. -/
def unusedIn (c : Context) (p : Project) (file : String) : List Finding :=
  let used := p.usedNames file
  if used.contains starName then []
  else
    let unused := (p.exportsOf file).filter fun e => e.name != starName && !used.contains e.name
    unused.map fun e =>
      { c.finding .unusedExport file ("Export '" ++ e.name ++
          "' is never imported in the project") with
        suggestion := some "Remove the export or list the module in entryPoints"
        autoFixable := e.shape == .clause
        location := some e.location
        metadata := [("exportName", .str e.name), ("scope", .str "project")] }

/-- Exports are used somewhere in the project, unless their file is an entry point. -/
def exportsAreUsed : ProjectRule := fun c p => do
  let entryPoints ← c.values "entryPoints" []
  return (← p.files.mapM fun file => do
    if ← matchesOneOf (p.relative file) entryPoints then return []
    return unusedIn c p file).flatten

/-- The directories that a module may only be imported from: those around a directory with the name
of a marker, and that of a file with such a name. -/
def boundaries (markers : List String) (path : Path) : List Path :=
  let parts := path.parts
  let around := (List.range (parts.length - 1)).filter fun i => parts[i]?.any markers.contains
  around.map (fun i => Path.ofParts (parts.take i)) ++
    if markers.contains path.stem then [path.parent] else []

/-- The first boundary that an import crosses. Everything is within the root. -/
def crossed? (p : Project) (markers : List String) (l : Project.Link) : Option Path :=
  (boundaries markers (Path.parse (p.relative l.target))).find? fun b =>
    !b.parts.isEmpty && !(Path.parse (p.relative l.importer)).isWithin b

/-- Internal modules are imported from inside their boundaries. -/
def boundariesAreKept : ProjectRule := fun c p => do
  let markers ← c.names "internalMarkers" ["internal", "_internal", "private"]
  return p.links.filterMap fun l => (crossed? p markers l).map fun b =>
    let specifier := l.statement.specifier
    { c.finding .accessViolation l.importer ("'" ++ specifier ++ "' is internal to " ++ b.text)
        with
      suggestion := some "Import from the public entry point of that module instead"
      relatedFiles := [l.importer, l.target]
      location := some l.statement.location
      metadata := [("moduleSpecifier", .str specifier), ("scope", .str "project")] }

end ExportLint.Rule
