import ExportLint.Rule.Naming

/-!
# Rules on exporting a name once

A file exports a name once, and so does the project. A type and a value may share a name, and a file
has one default export at most.
-/
namespace ExportLint.Rule

/-- Exports of one name and one level are the same to those who import them. -/
def sameSymbol (a b : Export) : Bool :=
  a.name == b.name && a.kind.isTypeLevel == b.kind.isTypeLevel

/-- Exports that count. Defaults have a rule of their own, and stars name nothing. -/
def countsAsNamed (e : Export) : Bool := e.form != .default && e.name != starName

/-- How many exports start on a line. -/
def startingOn (es : List Export) (line : Int) : Nat :=
  es.countP fun e => e.location.startLine == line

/-- What is to be said on an export of a file. A fix drops a whole line, so only an export with its
line to itself can be dropped; the first of some duplicates stays. -/
def duplicateFinding? (c : Context) (file : String) (es : List Export) (e : Export) :
    Option Finding :=
  let group := (es.filter countsAsNamed).filter (sameSymbol e)
  if group.length < 2 then none
  else
    let occurrence := group.idxOf e + 1
    some { c.finding .duplicateExport file ("Duplicate export '" ++ e.name ++ "' found (" ++
        toString occurrence ++ " of " ++ toString group.length ++ ")") with
      severity := .error
      suggestion := some (if 1 < occurrence then "Remove the duplicate export"
        else "Keep a single export of this name")
      autoFixable := 1 < occurrence && startingOn es e.location.startLine == 1
      location := some e.location
      metadata := [("exportName", .str e.name), ("occurrence", Json.nat occurrence),
        ("scope", .str "file")] }

/-- A file exports a name once. -/
def namesAreExportedOnce : FileRule := fun c file es =>
  .ok ((es.filter countsAsNamed).filterMap (duplicateFinding? c file es))

/-- A file has one default export at most. -/
def oneDefaultAtMost : FileRule := fun c file es =>
  let defaults := defaultExports es
  if defaults.length < 2 then .ok []
  else .ok <| defaults.map fun e =>
    { c.finding .duplicateExport file "Multiple default exports found" with
      severity := .error
      suggestion := some "Keep one default export and convert the others to named exports"
      location := some e.location
      metadata := [("exportName", .str e.name), ("scope", .str "file")] }

/-- An export takes part in conflicts between files. -/
def participates (ignored : List String) (ignoreReexports : Bool) (e : Export) : Bool :=
  !(e.isSentinel || ignored.contains e.name || (ignoreReexports && e.form == .reexport))

/-- The files with an export of a name that takes part. -/
def filesExporting (p : Project) (takesPart : Export → Bool) (name : String) : List String :=
  p.files.filter fun f => (p.exportsOf f).any fun e => takesPart e && e.name == name

/-- Only one file exports a name. -/
def namesAreUnique : ProjectRule := fun c p => do
  let takesPart := participates (← c.names "ignoreNames" []) (c.flag "ignoreReexports" false)
  return p.files.flatMap fun file => ((p.exportsOf file).filter takesPart).filterMap fun e =>
    let files := filesExporting p takesPart e.name
    if files.length < 2 then none
    else some { c.finding .duplicateExport file ("Export '" ++ e.name ++
        "' conflicts with exports in other files") with
      suggestion := some "Rename one of the exports or re-export a single definition"
      relatedFiles := files
      location := some e.location
      metadata := [("exportName", .str e.name), ("scope", .str "project")] }

end ExportLint.Rule
