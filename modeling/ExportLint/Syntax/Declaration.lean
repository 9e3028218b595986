import ExportLint.Syntax.ClassBody
import ExportLint.Syntax.Expression

/-!
# Declarations

Functions, classes, variables, types, modules and what is declared without being defined.
-/
namespace ExportLint.Syntax

variable (go : Grammar)

/-- A function with a name: a definition, or a signature that ends like a statement. -/
def functionDeclaration : Parser Node := do
  let head ← functionHead
  let star ← optionally (one (mark "*"))
  let lead ← inOrder [pure (head ++ star), fill "name" (word "identifier"),
    callSignature go .signature]
  if ← nextIs "\x7b" then
    build (if star.isEmpty then "function_declaration" else "generator_function_declaration")
      (inOrder [pure lead, fill "body" (go .block)])
  else
    require star.isEmpty
    build "function_signature" (inOrder [pure lead, semicolon .signature])

def classDeclaration : Parser Node := do
  let lead ← many (fill "decorator" (decorator go))
  if (← peekWord) = some "abstract" then
    build "abstract_class_declaration" (inOrder [pure lead, one (keyword "abstract"),
      one (keyword "class"), fill "name" className, classRest go])
  else
    build "class_declaration" (inOrder [pure lead, one (keyword "class"), fill "name" className,
      classRest go, optionally (lineBreak .plain)])

/-- A variable with its value, and whether the value comes last. -/
def declarator : Parser Node :=
  orElse
    (build "variable_declarator" (inOrder [fill "name" (word "identifier"), one (mark "!"),
      fill "type" (ascription go .plain)]))
    (build "variable_declarator" (inOrder [
      fill "name" (orElse (destructuring go) (word "identifier")),
      optionally (fill "type" (ascription go .plain)), optionally (initializer go outer)]))

/-- What may follow the last of some declarators. -/
def declaratorEnding (ns : List Node) : Ending :=
  match ns.getLast? with
  | some n => if (n.child? "value").isSome then .operand else .plain
  | none => .plain

def variableDeclaration : Parser Node := do
  let kindWord ← oneWordOf ["var", "let", "const"]
  let names ← separated "," (one (declarator go))
  let lead := if kindWord.kind = "var" then kindWord else { kindWord with field := some "kind" }
  build (if kindWord.kind = "var" then "variable_declaration" else "lexical_declaration")
    (inOrder [pure (lead :: names), semicolon (declaratorEnding names)])

def interfaceDeclaration : Parser Node :=
  build "interface_declaration" (inOrder [one (keyword "interface"),
    fill "name" (word "type_identifier"), optionally (fill "type_parameters" (typeParameters go)),
    optionally (one (build "extends_type_clause" (inOrder [one (keyword "extends"),
      separated "," (fill "type" (typeName go))]))),
    fill "body" (objectType go "interface_body")])

def enumMember : Parts := do
  let name ← fill "name" (propertyName go)
  orElse (one (build "enum_assignment" (inOrder [pure name, initializer go inner]))) (pure name)

def enumDeclaration : Parser Node :=
  build "enum_declaration" (inOrder [optionally (one (keyword "const")), one (keyword "enum"),
    fill "name" (word "identifier"),
    fill "body" (build "enum_body" (inOrder [one (mark "\x7b"),
      optionally (inOrder [separated "," (enumMember go), optionally (one (mark ","))]),
      one (mark "\x7d")]))])

def typeAlias : Parser Node :=
  build "type_alias_declaration" (inOrder [one (keyword "type"),
    fill "name" (word "type_identifier"), optionally (fill "type_parameters" (typeParameters go)),
    one equals, fill "value" (typ go .plain), semicolon .plain])

/-- A name within modules. -/
def modulePath : Parser Node := do
  grow (fun n => buildFrom { n with field := some "object" } "nested_identifier"
    (inOrder [one (mark "."), fill "property" (word "property_identifier")])) (← word "identifier")

def moduleDeclaration (kind w : String) : Parser Node :=
  build kind (inOrder [one (keyword w), fill "name" (orElse string modulePath),
    optionally (fill "body" (go .block))])

/-- Another name for something in a module. -/
def importAlias : Parser Node :=
  build "import_alias" (inOrder [one (keyword "import"), one (word "identifier"), one equals,
    one modulePath, semicolon .plain])

/-- A declaration that is not ambient. -/
def plainDeclaration : Parser Node := do
  match ← peek with
  | '@' :: _ => classDeclaration go
  | _ =>
    match ← peekWord with
    | some "function" | some "async" => functionDeclaration go
    | some "class" | some "abstract" => classDeclaration go
    | some "const" => orElse (enumDeclaration go) (variableDeclaration go)
    | some "let" | some "var" => variableDeclaration go
    | some "interface" => interfaceDeclaration go
    | some "enum" => enumDeclaration go
    | some "type" => typeAlias go
    | some "namespace" => moduleDeclaration go "internal_module" "namespace"
    | some "module" => moduleDeclaration go "module" "module"
    | some "import" => importAlias
    | _ => failure

/-- A declaration without a definition, which others may stand in. -/
def ambientDeclaration : Nat → Parser Node
  | 0 => failure
  | depth + 1 =>
    build "ambient_declaration" (inOrder [one (keyword "declare"), firstOf [
      inOrder [one (keyword "global"), one (go .block)],
      inOrder [one (keyword "module"), one (mark "."), one (word "property_identifier"),
        one (mark ":"), one (typ go .plain), semicolon .plain],
      one (plainDeclaration go), one (ambientDeclaration depth)]])

def declaration : Parser Node := do
  if (← peekWord) = some "declare" then
    ambientDeclaration go (← get).rest.length
  else plainDeclaration go

end ExportLint.Syntax
