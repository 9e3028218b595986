import ExportLint.Syntax.Declaration
import ExportLint.Syntax.Operator

/-!
# Statements

Statements from exports and imports down to single expressions. Many words that open a statement may
also be names: they are, where a line break follows them or where nothing else can be made of them.
-/
namespace ExportLint.Syntax

variable (go : Grammar)

/-! Modules. -/

/-- A name that a module exports. -/
def exportedName : Parser Node := orElse string (word "identifier")

/-- A mark that a name stands for a type. -/
def typeMark : Parser Node := orElse (keyword "type") (keyword "typeof")

def fromClause : Parts := inOrder [one (keyword "from"), fill "source" string]

def exportSpecifier : Parser Node :=
  build "export_specifier" (inOrder [optionally (one typeMark), fill "name" exportedName,
    optionally (inOrder [one (keyword "as"), fill "alias" exportedName])])

def exportClause : Parser Node :=
  build "export_clause" (inOrder [one (mark "\x7b"),
    optionally (separated "," (one exportSpecifier)), optionally (one (mark ",")),
    one (mark "\x7d")])

/-- Words that open declarations and stand for no value. -/
def declarationWords : List String := ["abstract", "const", "enum", "interface", "var"]

def exportBody : Parts := do
  match ← peek with
  | '*' :: _ =>
    inOrder [
      orElse (one (build "namespace_export" (inOrder [one (mark "*"), one (keyword "as"),
        one exportedName]))) (one (mark "*")),
      fromClause, semicolon .plain]
  | '\x7b' :: _ => inOrder [one exportClause, optionally fromClause, semicolon .plain]
  | '=' :: _ => inOrder [one equals, one (expr go outer), semicolon .operand]
  | _ =>
    match ← peekWord with
    | some "default" =>
      inOrder [one (keyword "default"), orElse (fill "declaration" (declaration go)) (do
        require (!((← peekWord).any declarationWords.contains))
        inOrder [fill "value" (expr go outer), semicolon .operand])]
    | some "as" =>
      inOrder [one (keyword "as"), one (keyword "namespace"), one (word "identifier"),
        semicolon .plain]
    | some "type" =>
      orElse (inOrder [one (keyword "type"), one exportClause, optionally fromClause,
        semicolon .plain]) (fill "declaration" (declaration go))
    | _ => fill "declaration" (declaration go)

def exportStatement : Parser Node :=
  build "export_statement" (inOrder [many (fill "decorator" (decorator go)),
    one (keyword "export"), exportBody go])

def importSpecifier : Parser Node := do
  let aliased : Parts := inOrder [one (keyword "as"), fill "alias" (word "identifier")]
  let plain : Parts := do
    let name ← fill "name" exportedName
    let other ← optionally aliased
    -- Names that are no identifiers need one.
    let bare := name.any fun n => n.kind == "string"
    require (!bare || !other.isEmpty)
    return name ++ other
  let named : Parts := do
    if (← peekWord) = some "default" then
      inOrder [fill "name" (word "identifier"), aliased]
    else plain
  let typed : Parts := do
    let m ← typeMark
    -- A mark with `as` behind it is a name.
    require (m.kind != "type" || (← peekWord) != some "as")
    return m :: (← named)
  build "import_specifier" (orElse typed (do
    require ((← peekWord) != some "typeof")
    named))

def namedImports : Parser Node :=
  build "named_imports" (inOrder [one (mark "\x7b"),
    optionally (separated "," (one importSpecifier)), optionally (one (mark ",")),
    one (mark "\x7d")])

def namespaceImport : Parser Node :=
  build "namespace_import" (inOrder [one (mark "*"), one (keyword "as"), one (word "identifier")])

def importClause : Parser Node :=
  build "import_clause" (firstOf [one namespaceImport, one namedImports,
    inOrder [one (word "identifier"),
      optionally (inOrder [one (mark ","), one (orElse namespaceImport namedImports)])]])

def requireClause : Parser Node :=
  build "import_require_clause" (inOrder [one (word "identifier"), one equals,
    one (keyword "require"), one (mark "("), fill "source" string, one (mark ")")])

def importAttribute : Parts :=
  optionally (one (build "import_attribute"
    (inOrder [one (orElse (keyword "with") (keyword "assert")), one (object go)])))

def importBody : Parts :=
  firstOf [one requireClause, inOrder [one importClause, fromClause], fill "source" string]

def importStatement : Parser Node :=
  build "import_statement" (inOrder [one (keyword "import"),
    orElse (inOrder [one typeMark, importBody]) importBody, importAttribute go,
    semicolon .plain])

/-! Control. -/

def condition : Parts := fill "condition" (parenthesized go)

def body : Parts := fill "body" (go .statement)

def ifStatement : Parser Node :=
  build "if_statement" (inOrder [one (keyword "if"), condition go,
    fill "consequence" (go .statement),
    openedClause "else" (fill "alternative" (build "else_clause"
      (inOrder [one (keyword "else"), one (go .statement)])))])

/-- A statement of a case. -/
def caseStatement : Parser Node := do
  match ← peekWord with
  | some "case" | some "default" => failure
  | _ => go .statement

def switchCase : Parser Node :=
  orElse
    (build "switch_case" (inOrder [one (keyword "case"), fill "value" (expressions go inner),
      one (mark ":"), many (fill "body" (caseStatement go))]))
    (build "switch_default" (inOrder [one (keyword "default"), one (mark ":"),
      many (fill "body" (caseStatement go))]))

def switchStatement : Parser Node :=
  build "switch_statement" (inOrder [one (keyword "switch"), fill "value" (parenthesized go),
    fill "body" (build "switch_body" (inOrder [one (mark "\x7b"), many (one (switchCase go)),
      one (mark "\x7d")]))])

def emptyStatement : Parser Node := do
  let n ← mark ";"
  return { n with kind := "empty_statement", named := true }

def forHead : Parts :=
  firstOf [
    fill "initializer" (variableDeclaration go),
    fill "initializer" emptyStatement,
    inOrder [fill "initializer" (expressions go inner), one (mark ";")]]

def forStatement : Parser Node :=
  build "for_statement" (inOrder [one (keyword "for"), one (mark "("), forHead go,
    orElse (fill "condition" emptyStatement)
      (inOrder [fill "condition" (expressions go inner), one (mark ";")]),
    optionally (fill "increment" (expressions go inner)), one (mark ")"), body go])

def eachHead : Parts :=
  orElse
    (inOrder [fill "kind" (oneWordOf ["var", "let", "const"]),
      fill "left" (orElse (destructuring go) (word "identifier")),
      optionally (initializer go inner)])
    (fill "left" (orElse (destructuring go) (go (.unary inner))))

def forEachStatement : Parser Node :=
  build "for_in_statement" (inOrder [one (keyword "for"), optionally (one (keyword "await")),
    one (mark "("), eachHead go, fill "operator" (orElse (keyword "of") (keyword "in")),
    fill "right" (expressions go inner), one (mark ")"), body go])

def whileStatement : Parser Node :=
  build "while_statement" (inOrder [one (keyword "while"), condition go, body go])

def doStatement : Parser Node :=
  build "do_statement" (inOrder [one (keyword "do"), body go, one (keyword "while"), condition go,
    optionally (semicolon .plain)])

def tryStatement : Parser Node :=
  build "try_statement" (inOrder [one (keyword "try"), fill "body" (go .block),
    openedClause "catch" (fill "handler" (build "catch_clause" (inOrder [one (keyword "catch"),
      optionally (inOrder [one (mark "("),
        fill "parameter" (orElse (destructuring go) (word "identifier")),
        optionally (fill "type" (ascription go .closed)), one (mark ")")]),
      fill "body" (go .block)]))),
    openedClause "finally" (fill "finalizer" (build "finally_clause"
      (inOrder [one (keyword "finally"), fill "body" (go .block)])))])

def withStatement : Parser Node :=
  build "with_statement" (inOrder [one (keyword "with"), fill "object" (parenthesized go), body go])

/-- A statement that leaves for a label, if it names one. -/
def jumpStatement (kind w : String) : Parser Node :=
  build kind (inOrder [one (keyword w), orElse (semicolon .plain)
    (inOrder [fill "label" (word "statement_identifier"), semicolon .plain])])

def returnStatement : Parser Node :=
  build "return_statement" (inOrder [one (keyword "return"), orElse (semicolon .plain)
    (inOrder [one (expressions go outer), semicolon .operand])])

def throwStatement : Parser Node :=
  build "throw_statement" (inOrder [one (keyword "throw"), one (expressions go outer),
    semicolon .operand])

def debuggerStatement : Parser Node :=
  build "debugger_statement" (inOrder [one (keyword "debugger"), semicolon .plain])

/-! Expressions. -/

def expressionStatement : Parser Node :=
  build "expression_statement" (inOrder [one (expressions go outer), semicolon .operand])

def labeledStatement : Parser Node :=
  build "labeled_statement" (inOrder [fill "label" (word "statement_identifier"), one (mark ":"),
    body go])

def otherStatement : Parser Node := orElse (labeledStatement go) (expressionStatement go)

/-- A namespace stands where an expression does. -/
def namespaceStatement : Parser Node := do
  let n ← moduleDeclaration go "internal_module" "namespace"
  orElse (buildFrom n "expression_statement" (semicolon .operand)) (pure n)

/-- A statement that a word opens, unless a line ends behind it: there it is a name. -/
def openedBy (w : String) (p : Parser Node) : Parser Node := do
  let broken : Parser Unit := do
    let _ ← keyword w
    require (← atBreak .operand)
  orElse (do
    absent broken
    p) (otherStatement go)

def statement : Parser Node := do
  match ← peek with
  | '\x7b' :: _ => go .block
  | ';' :: _ => emptyStatement
  | '@' :: _ => orElse (exportStatement go) (declaration go)
  | _ =>
    match ← peekWord with
    | some "export" => openedBy go "export" (exportStatement go)
    | some "import" => firstOf [importStatement go, importAlias, otherStatement go]
    | some "function" => functionDeclaration go
    | some "async" => openedBy go "async" (functionDeclaration go)
    | some "class" | some "abstract" => classDeclaration go
    | some "const" => orElse (enumDeclaration go) (variableDeclaration go)
    | some "var" => variableDeclaration go
    | some "let" => openedBy go "let" (variableDeclaration go)
    | some "interface" => interfaceDeclaration go
    | some "enum" => enumDeclaration go
    | some "type" => openedBy go "type" (typeAlias go)
    | some "namespace" => openedBy go "namespace" (namespaceStatement go)
    | some "module" => openedBy go "module" (moduleDeclaration go "module" "module")
    | some "declare" => openedBy go "declare" (declaration go)
    | some "if" => ifStatement go
    | some "switch" => switchStatement go
    | some "for" => orElse (forEachStatement go) (forStatement go)
    | some "while" => whileStatement go
    | some "do" => doStatement go
    | some "try" => tryStatement go
    | some "with" => withStatement go
    | some "break" => jumpStatement "break_statement" "break"
    | some "continue" => jumpStatement "continue_statement" "continue"
    | some "return" => returnStatement go
    | some "throw" => throwStatement go
    | some "debugger" => debuggerStatement
    | _ => otherStatement go

def block : Parser Node :=
  build "statement_block" (inOrder [one (mark "\x7b"), many (one (go .statement)),
    one (mark "\x7d"), optionally (lineBreak .plain)])

end ExportLint.Syntax
