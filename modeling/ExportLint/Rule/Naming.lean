import ExportLint.Naming.CaseStyle
import ExportLint.Rule.Basic

/-!
# Rules on names

Exported names match the pattern for their kind, and a default export is named like its file. Where
the case style of the kind gives a name that matches, that name is offered.
-/
namespace ExportLint.Rule

/-- A name that is chosen here. Names that stand for a form of export are not, and neither are those
that are forwarded as they are. -/
def isChosenHere (e : Export) : Bool :=
  !e.isSentinel && (e.form != .reexport || e.sourceName.isSome)

/-- The pattern for an export: that of the options, or that of its kind. -/
def patternFor (c : Context) (e : Export) : Except Failure String :=
  match c.option? (if e.form = .default then "defaultExport" else "namedExport") with
  | some v =>
    if !v.isTruthy then .ok (c.conventions.forKind e.kind).pattern
    else
      match v with
      | .str s => .ok s
      | _ => .error .wrongType
  | none => .ok (c.conventions.forKind e.kind).pattern

/-- What is to be said on the name of one export. -/
def namingFinding (c : Context) (file : String) (e : Export) : Except Failure (Option Finding) := do
  if !isChosenHere e then return none
  let pattern ← patternFor c e
  if ← occurs pattern e.name then return none
  let style := (c.conventions.forKind e.kind).style
  let suggested := style.apply e.name
  let fixable ← if suggested != e.name then occurs pattern suggested else pure false
  let kindName := Named.name e.kind
  return some { c.finding .naming file ("Export '" ++ e.name ++ "' does not follow the " ++
      kindName ++ " naming convention '" ++ pattern ++ "'") with
    suggestion := some
      (if fixable then "Rename to '" ++ suggested ++ "'" else "Rename to match " ++ pattern)
    autoFixable := fixable
    location := some e.location
    metadata := [("exportName", .str e.name), ("exportedKind", .str kindName),
      ("caseStyle", .str (Named.name style)), ("scope", .str "file")] ++
      if fixable then [("suggestedName", .str suggested)] else [] }

/-- Names match the pattern for their kind. -/
def namesFollowConventions : FileRule := fun c file es => do
  return (← es.mapM (namingFinding c file)).filterMap id

def defaultExports (es : List Export) : List Export := es.filter fun e => e.form == .default

/-- A default export with a name is named like its file. -/
def defaultIsNamedLikeFile : FileRule := fun c file es =>
  match defaultExports es with
  | [e] =>
    let stem := (Path.parse file).stem
    if [defaultName, equalsName, stem].contains e.name then .ok []
    else .ok [{ c.finding .naming file ("Default export name '" ++ e.name ++
        "' does not match file name '" ++ stem ++ "'") with
      suggestion := some ("Rename the export or the file to '" ++ stem ++ "'")
      location := some e.location
      metadata := [("exportName", .str e.name), ("fileName", .str stem), ("scope", .str "file")] }]
  | _ => .ok []

/-- Forms of exports that options may forbid, with what is said about them. -/
def forbiddable : List (String × ExportForm × String) :=
  [("noDefaultExport", .default, "Default exports are not allowed"),
    ("noNamespaceExport", .wholeNamespace, "Namespace exports are not allowed"),
    ("noReexport", .reexport, "Re-exports are not allowed")]

/-- No export has a form that an option forbids. -/
def formsAreAllowed : FileRule := fun c file es =>
  let forbidden := (forbiddable.filter fun f => c.flag f.1 false).map (·.2)
  .ok <| es.filterMap fun e => (forbidden.lookup e.form).map fun text =>
    { c.finding .naming file text with
      location := some e.location
      metadata := [("exportName", .str e.name), ("scope", .str "file")] }

end ExportLint.Rule
