import ExportLint.Rule.Basic

/-!
# Types travel as types

Names that exist for the type checker only are exported and imported by statements that say so. A
fix changes a whole statement, so it is offered only where everything in it is a type.
-/
namespace ExportLint.Rule

/-- An export is one of a type. What is re-exported is looked up in its module. -/
def isTypeExport (p : Project) (file : String) (e : Export) : Bool :=
  if e.typeOnly then true
  else if e.form != .reexport then e.kind.isTypeLevel
  else
    let target := givenName ((Project.sourceOf? e).bind (p.resolve? file))
    (target.bind fun t => p.kindOf? t ((givenName e.sourceName).getD e.name)).any (·.isTypeLevel)

/-- Types that the clauses of a file export like values. -/
def plainTypeExports (c : Context) (p : Project) (file : String) : List Finding :=
  let inClauses := (p.exportsOf file).filter fun e => e.shape == .clause
  let plain := inClauses.filter fun e => !e.typeOnly && isTypeExport p file e
  plain.map fun e =>
    { c.finding .typeMismatch file ("Type '" ++ e.name ++
        "' is exported through a value export clause") with
      suggestion := some "Use 'export type \x7b ... \x7d'"
      autoFixable := (inClauses.filter fun other =>
        other.location.startLine == e.location.startLine).all (isTypeExport p file)
      location := some e.location
      metadata := [("exportName", .str e.name), ("typeOnly", .bool true),
        ("statement", .str "export"), ("scope", .str "file")] }

/-- Types that an import takes like values. -/
def plainTypeImports (c : Context) (p : Project) (l : Project.Link) : List Finding :=
  let i := l.statement
  let isType (n : ImportedName) : Bool :=
    !n.typeOnly && (p.kindOf? l.target n.name).any (·.isTypeLevel)
  let types := (i.names.filter isType).map (·.name)
  if i.typeOnly then []
  else types.map fun name =>
    { c.finding .typeMismatch l.importer ("'" ++ name ++
        "' is a type and should be imported with 'import type'") with
      suggestion := some
        ("import type \x7b " ++ name ++ " \x7d from '" ++ i.specifier ++ "'")
      autoFixable := types.length == i.names.length && i.defaultName.isNone &&
        i.namespaceName.isNone && i.location.startLine == i.location.endLine
      relatedFiles := [l.importer, l.target]
      location := some i.location
      metadata := [("exportName", .str name), ("moduleSpecifier", .str i.specifier),
        ("typeOnly", .bool true), ("statement", .str "import"), ("scope", .str "project")] }

/-- Types are exported, and unless an option says otherwise imported, as types. -/
def typesTravelAsTypes : ProjectRule := fun c p =>
  .ok <| p.files.flatMap (plainTypeExports c p) ++
    if c.flag "preferTypeOnlyImports" true then p.links.flatMap (plainTypeImports c p) else []

end ExportLint.Rule
