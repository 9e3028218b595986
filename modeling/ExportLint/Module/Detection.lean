import ExportLint.Module.Inventory
import ExportLint.Scan.Walk
import ExportLint.Syntax.Node

/-!
# Detecting exports and imports

The inventory of a file is read off its syntax tree: the statements below the root that declare,
export or import names. A tree that exports an empty name has no inventory.
-/
namespace ExportLint

namespace Detection

/-- A name that a declaration introduces, with the node that spells it and the declaring node. -/
structure Declared where
  name : String
  kind : ExportKind
  nameNode : Node
  node : Node
  deriving Repr

/-- What is known about a file while its exports are read. -/
structure Scope where
  source : Source
  /-- Imported local names with their modules. Of two with one name the later counts. -/
  bindings : List (String × String)
  declarations : Declarations := []
  deriving Repr

namespace Scope

def moduleOf? (s : Scope) (name : String) : Option String := s.bindings.reverse.lookup name

end Scope

def isFunctionValue (kind : String) : Bool :=
  ["arrow_function", "function_expression", "function", "generator_function"].contains kind

/-- Values that declare something without a name when they are the default export. -/
def isAnonymousDefault (kind : String) : Bool :=
  ["function_expression", "function", "generator_function", "class"].contains kind

def isVariableDeclaration (kind : String) : Bool :=
  kind == "lexical_declaration" || kind == "variable_declaration"

def declarationKind? (kind : String) : Option ExportKind :=
  [("function_declaration", .function), ("generator_function_declaration", .function),
    ("function_signature", .function), ("class_declaration", .classDef),
    ("abstract_class_declaration", .classDef), ("interface_declaration", .interface),
    ("type_alias_declaration", .typeAlias), ("enum_declaration", .constant),
    ("internal_module", .constant), ("module", .constant)].lookup kind

/-- A capital, then letters and digits, and a line feed at most behind them. -/
def isCapitalized (name : String) : Bool :=
  match name.toList with
  | c :: cs =>
    let body := if cs.getLast? == some '\n' then cs.dropLast else cs
    Text.Letter.isAsciiUpper c &&
      body.all fun c => Text.Letter.isAsciiAlpha c || Text.Letter.isAsciiDigit c
  | [] => false

/-- Capitalized functions and classes in files with markup are components. -/
def refineKind (file name : String) (kind : ExportKind) : ExportKind :=
  if (kind = .function ∨ kind = .classDef) ∧ holdsMarkup file ∧ isCapitalized name then .component
  else kind

mutual

/-- The nodes that a destructuring pattern binds. Default values bind nothing. -/
def boundNodes : Node → List Node
  | ⟨kind, field, named, start, stop, children⟩ =>
    if kind = "identifier" ∨ kind = "shorthand_property_identifier_pattern" then
      [⟨kind, field, named, start, stop, children⟩]
    else
      boundNodesOf (kind = "assignment_pattern" || kind = "object_assignment_pattern") children

/-- As above for children; the first that fills the right-hand field may have to be left out. -/
def boundNodesOf (skipRight : Bool) : List Node → List Node
  | [] => []
  | n :: ns =>
    if skipRight ∧ n.field = some "right" then boundNodesOf false ns
    else if n.named then boundNodes n ++ boundNodesOf skipRight ns
    else boundNodesOf skipRight ns

end

/-- The names of one declarator. -/
def declaredByDeclarator (src : Source) (n : Node) : List Declared :=
  match n.child? "name" with
  | none => []
  | some nameNode =>
    if nameNode.kind = "identifier" then
      let name := src.text nameNode
      let kind := if (n.child? "value").any fun v => isFunctionValue v.kind
        then ExportKind.function else .constant
      [⟨name, refineKind src.file name kind, nameNode, n⟩]
    else (boundNodes nameNode).map fun i => ⟨src.text i, .constant, i, n⟩

/-- The name of a declaration that has one. A module named by a string declares nothing. -/
def declaredByName (src : Source) (n : Node) : List Declared :=
  match declarationKind? n.kind, n.child? "name" with
  | some kind, some nameNode =>
    if nameNode.kind = "string" then []
    else
      let name := src.text nameNode
      [⟨name, refineKind src.file name kind, nameNode, n⟩]
  | _, _ => []

/-- The names of an alias for an imported namespace. -/
def declaredByAlias (src : Source) (n : Node) : List Declared :=
  match n.namedChildren.find? fun c => c.kind == "identifier" with
  | some i => [⟨src.text i, .constant, i, n⟩]
  | none => []

mutual

/-- The names that a statement declares. -/
def declaredNames (src : Source) : Node → List Declared
  | ⟨kind, field, named, start, stop, children⟩ =>
    let node : Node := ⟨kind, field, named, start, stop, children⟩
    if kind = "ambient_declaration" then declaredNamesOf src children
    else if kind = "expression_statement" then declaredByFirst src children
    else if isVariableDeclaration kind then
      (node.namedChildren.filter fun c => c.kind == "variable_declarator").flatMap
        (declaredByDeclarator src)
    else if kind = "import_alias" then declaredByAlias src node
    else declaredByName src node

def declaredNamesOf (src : Source) : List Node → List Declared
  | [] => []
  | n :: ns => (if n.named then declaredNames src n else []) ++ declaredNamesOf src ns

/-- A namespace may stand where an expression is expected. -/
def declaredByFirst (src : Source) : List Node → List Declared
  | [] => []
  | n :: ns =>
    if n.named then (if n.kind = "internal_module" then declaredNames src n else [])
    else declaredByFirst src ns

end

mutual

/-- The modules of the imported names that a tree refers to. -/
def referredModules (scope : Scope) : Node → List String
  | ⟨kind, field, named, start, stop, children⟩ =>
    let own :=
      if ["identifier", "type_identifier", "shorthand_property_identifier"].contains kind then
        (givenName (scope.moduleOf?
          (scope.source.text ⟨kind, field, named, start, stop, children⟩))).toList
      else []
    own ++ referredModulesOf scope children

def referredModulesOf (scope : Scope) : List Node → List String
  | [] => []
  | n :: ns => referredModules scope n ++ referredModulesOf scope ns

end

/-- Texts in their order, each once. -/
def sortedOnce (ts : List String) : List String :=
  (ts.mergeSort fun a b => decide (a ≤ b)).eraseDups

/-- The modules of the imported names that a tree refers to, in order. -/
def references (scope : Scope) (n : Node) : List String :=
  if scope.bindings.isEmpty then [] else sortedOnce (referredModules scope n)

/-- The lines of a comment in words: without the marks in front of them and without empty ones. -/
def commentLines (text : String) : List (List Char) :=
  let cs := text.toList
  let inner := (cs.drop 3).take (cs.length - 5)
  ((Text.textLines inner).map fun line =>
    Text.trim ((Text.trim line).dropWhile (· == '*'))).filter fun line => !line.isEmpty

/-- The comment that documents a statement: the block right above it. -/
def documentation (src : Source) (previous : Option Node) (n : Node) : Option String :=
  match previous with
  | none => none
  | some p =>
    if p.kind = "comment" ∧ (src.point n.start).row ≤ (src.point p.stop).row + 1 then
      let text := src.text p
      if Text.startsWith "/**".toList text.toList then
        match commentLines text with
        | [] => none
        | ls => some ("\n".intercalate (ls.map String.ofList))
      else none
    else none

/-- The statement that an export is made with. Other export statements export nothing. -/
def shape? (n : Node) : Option ExportShape :=
  if n.hasChild "export_clause" then some .clause
  else if n.hasChild "namespace_export" then some .namespaceStar
  else if n.hasChild "*" then some .star
  else if (n.child? "declaration").isSome then some .declaration
  else if n.hasChild "default" && (n.child? "value").any fun v => isAnonymousDefault v.kind then
    some .declaration
  else if n.hasChild "default" || n.hasChild "=" then some .assignment
  else none

def sourceSpecifier? (src : Source) (n : Node) : Option String :=
  (n.child? "source").map src.stringValue

/-- The exports of a clause. -/
def clauseExports (scope : Scope) (documentation : Option String) (n : Node) : List Export :=
  let src := scope.source
  let specifier := sourceSpecifier? src n
  let clause := n.children.find? fun c => c.kind == "export_clause"
  let elements := clause.elim [] fun c =>
    c.namedChildren.filter fun e => e.kind == "export_specifier"
  elements.map fun element =>
    let localName := src.nameText (element.child? "name")
    let exported := match element.child? "alias" with
      | some a => src.nameText (some a)
      | none => localName
    let typeOnly := n.hasToken "type" || element.hasToken "type"
    let plainKind := if typeOnly then ExportKind.typeAlias else .constant
    { file := src.file
      name := exported
      form := if specifier.isSome then .reexport
        else if exported = defaultName then .default else .named
      kind := if specifier.isSome then plainKind
        else (scope.declarations.lookup localName).getD plainKind
      typeOnly
      location := src.location element
      dependencies := match specifier with
        | some m => [m]
        | none => (scope.moduleOf? localName).toList
      shape := .clause
      sourceName := if localName = exported then none else some localName
      documentation }

/-- The export of a whole module under a name. -/
def namespaceExport (scope : Scope) (documentation : Option String) (n : Node) : Export :=
  let src := scope.source
  let nameNode := (n.children.find? fun c => c.kind == "namespace_export").bind fun c =>
    c.namedChildren.getLast?
  let name := src.nameText nameNode
  { file := src.file
    name := if name.isEmpty then anonymousName else name
    form := .wholeNamespace
    typeOnly := n.hasToken "type"
    location := src.location n
    dependencies := (givenName (sourceSpecifier? src n)).toList
    shape := .namespaceStar
    sourceName := some starName
    documentation }

/-- The export of everything that a module exports. -/
def starExport (scope : Scope) (n : Node) : Export :=
  let src := scope.source
  { file := src.file
    name := starName
    form := .reexport
    typeOnly := n.hasToken "type"
    location := src.location n
    dependencies := (givenName (sourceSpecifier? src n)).toList
    shape := .star }

/-- The export of a value. -/
def assignmentExport (scope : Scope) (documentation : Option String) (n : Node) : Export :=
  let src := scope.source
  let value := (n.child? "value").or
    (n.namedChildren.filter fun c => c.kind != "comment").getLast?
  let sourceName := (value.filter fun v => v.kind == "identifier").map src.text
  { file := src.file
    name := if n.hasToken "=" then equalsName else defaultName
    form := .default
    kind := if (value.map (·.kind)).any isFunctionValue then .function
      else (sourceName.bind fun s => scope.declarations.lookup s).getD .constant
    location := src.location n
    dependencies := value.elim [] (references scope)
    shape := .assignment
    sourceName
    documentation }

/-- The default export of a function or a class that stands for itself. -/
def anonymousDefault (scope : Scope) (documentation : Option String) (n value : Node) : Export :=
  let src := scope.source
  let nameNode := value.child? "name"
  let text := nameNode.elim "" src.text
  let name := if text.isEmpty then defaultName else text
  let kind := if value.kind = "class" then ExportKind.classDef else .function
  { file := src.file
    name
    form := .default
    kind := refineKind src.file name kind
    location := src.span (nameNode.getD n) n
    dependencies := references scope value
    documentation }

/-- The exports of declared names. Overloaded signatures and their implementation export one symbol:
`open_` holds the names whose implementation is still to come. -/
def declaredExports (make : Declared → Export) (open_ : List String) :
    List Declared → List Export × List String
  | [] => ([], open_)
  | d :: ds =>
    if d.node.kind = "function_signature" then
      if open_.contains d.name then declaredExports make open_ ds
      else
        let (es, left) := declaredExports make (d.name :: open_) ds
        (make d :: es, left)
    else if d.node.kind = "function_declaration" ∧ open_.contains d.name then
      declaredExports make (open_.filter (· != d.name)) ds
    else
      let (es, left) := declaredExports make open_ ds
      (make d :: es, left)

def declarationExports (scope : Scope) (documentation : Option String) (open_ : List String)
    (n : Node) : List Export × List String :=
  let src := scope.source
  let form := if n.hasToken "default" then ExportForm.default else .named
  match n.child? "declaration" with
  | none => ((n.child? "value").toList.map (anonymousDefault scope documentation n), open_)
  | some declaration =>
    match declaredNames src declaration with
    | [] =>
      if isVariableDeclaration declaration.kind then
        ([{ file := src.file, name := anonymousName, form, location := src.location n,
            documentation }], open_)
      else ([], open_)
    | declared =>
      let dependencies := references scope declaration
      declaredExports (fun d =>
        { file := src.file, name := d.name, form, kind := d.kind, typeOnly := d.kind.isTypeLevel,
          location := src.span d.nameNode n, dependencies, documentation }) open_ declared

/-- The exports of one statement. -/
def statementExports (scope : Scope) (open_ : List String) (previous : Option Node) (n : Node) :
    List Export × List String :=
  let doc := documentation scope.source previous n
  match shape? n with
  | some .clause => (clauseExports scope doc n, open_)
  | some .namespaceStar => ([namespaceExport scope doc n], open_)
  | some .star => ([starExport scope n], open_)
  | some .assignment => ([assignmentExport scope doc n], open_)
  | some .declaration => declarationExports scope doc open_ n
  | none => ([], open_)

/-- The exports of statements, each with the named node before it. -/
def exportsFrom (scope : Scope) (open_ : List String) (previous : Option Node) :
    List Node → List Export
  | [] => []
  | n :: ns =>
    let next := if n.named then some n else previous
    if n.kind = "export_statement" then
      let (es, left) := statementExports scope open_ previous n
      es ++ exportsFrom scope left next ns
    else exportsFrom scope open_ next ns

/-- The names of an import specifier. -/
def importedName (src : Source) (typeOnly : Bool) (n : Node) : ImportedName where
  name := src.nameText (n.child? "name")
  boundAs := (n.child? "alias").map fun a => src.nameText (some a)
  typeOnly := typeOnly || n.hasToken "type"

/-- Read a part of an import clause into an import. -/
def readImportPart (src : Source) (i : Import) (part : Node) : Import :=
  match part.kind with
  | "identifier" => { i with defaultName := some (src.text part) }
  | "namespace_import" =>
    match (part.namedChildren.filter fun c => c.kind == "identifier").getLast? with
    | some name => { i with namespaceName := some (src.text name) }
    | none => i
  | "named_imports" =>
    let specifiers := part.namedChildren.filter fun c => c.kind == "import_specifier"
    { i with names := i.names ++ specifiers.map (importedName src i.typeOnly) }
  | _ => i

/-- Read a child of an import statement. A clause that requires a module names its source, unless
the statement does. -/
def readImportChild (src : Source) (state : Import × Option Node) (child : Node) :
    Import × Option Node :=
  match child.kind with
  | "import_clause" => (child.namedChildren.foldl (readImportPart src) state.1, state.2)
  | "import_require_clause" =>
    let i := match child.namedChildren.find? fun c => c.kind == "identifier" with
      | some name => { state.1 with namespaceName := some (src.text name) }
      | none => state.1
    (i, state.2.or (child.child? "source"))
  | _ => state

/-- The import of a statement, if it has a source. -/
def import? (src : Source) (n : Node) : Option Import :=
  let start : Import :=
    { file := src.file, specifier := "", typeOnly := n.hasToken "type",
      location := src.location n }
  let (i, source) := n.namedChildren.foldl (readImportChild src) (start, n.child? "source")
  source.map fun s => { i with specifier := src.stringValue s }

/-- The node whose declarations count for a statement. -/
def declaring? (n : Node) : Option Node :=
  if n.kind = "export_statement" then n.child? "declaration" else some n

/-- The first declaration of each name below the root. -/
def declarations (src : Source) (root : Node) : Declarations :=
  let declared := (root.children.filterMap declaring?).flatMap (declaredNames src)
  declared.foldl (fun ds d => Declarations.insert ds d.name d.kind) []

def scopeOf (src : Source) (root : Node) (imports : List Import) : Scope where
  source := src
  bindings := imports.flatMap fun i => i.boundNames.map fun n => (n, i.specifier)
  declarations := declarations src root

def importsOf (src : Source) (root : Node) : List Import :=
  (root.children.filter fun c => c.kind == "import_statement").filterMap (import? src)

end Detection

/-- Why a file has no inventory although it can be read. -/
def detectionFault : String := "Detection error"

/-- The inventory of a source with its syntax tree. -/
def Inventory.ofTree (src : Source) (root : Node) : Inventory :=
  let imports := Detection.importsOf src root
  let scope := Detection.scopeOf src root imports
  let exports := Detection.exportsFrom scope [] none root.children
  if exports.any fun e => e.name.isEmpty then { file := src.file, errors := [detectionFault] }
  else { file := src.file, exports, imports, declarations := scope.declarations }

end ExportLint
