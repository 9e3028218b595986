import ExportLint.Syntax.Goal

/-!
# Types

Types from unions down to names, the signatures of what can be called, and the members of object
types.
-/
namespace ExportLint.Syntax

variable (go : Grammar)

def typ (e : Ending) : Parser Node := go (.type e)

def typeArguments : Parser Node :=
  build "type_arguments" (inOrder [one (mark "<"), separated "," (one (typ go .closed)),
    optionally (one (mark ",")), one (mark ">")])

def ascription (e : Ending) : Parser Node :=
  build "type_annotation" (inOrder [one (mark ":"), one (typ go e)])

def typeParameter : Parser Node :=
  build "type_parameter" (inOrder [optionally (one (keyword "const")),
    fill "name" (word "type_identifier"),
    optionally (fill "constraint" (build "constraint"
      (inOrder [one (orElse (keyword "extends") (mark ":")), one (typ go .closed)]))),
    optionally (fill "value" (build "default_type" (inOrder [one equals, one (typ go .closed)])))])

def typeParameters : Parser Node :=
  build "type_parameters" (inOrder [one (mark "<"), separated "," (one (typeParameter go)),
    optionally (one (mark ",")), one (mark ">")])

/-- A claim about the type of a name. -/
def typePredicate (e : Ending) : Parser Node :=
  build "type_predicate" (inOrder [fill "name" (orElse (wordNode "this") (word "identifier")),
    one (keyword "is"), fill "type" (typ go e)])

def assertion (e : Ending) : Parser Node :=
  build "asserts" (inOrder [one (keyword "asserts"),
    one (firstOf [typePredicate go e, wordNode "this", word "identifier"])])

def returnAscription (e : Ending) : Parser Node :=
  firstOf
    [build "asserts_annotation" (inOrder [one (mark ":"), one (assertion go e)]),
      build "type_predicate_annotation" (inOrder [one (mark ":"), one (typePredicate go e)]),
      ascription go e]

/-- A chain of names that decorates what follows. -/
def decoratorTarget : Parser Node := do
  let name ← word "identifier"
  grow (fun n => firstOf
    [buildFrom { n with field := some "object" } "member_expression"
      (inOrder [one (mark "."), fill "property" (word "property_identifier")]),
    buildFrom { n with field := some "function" } "call_expression"
      (inOrder [optionally (fill "type_arguments" (typeArguments go)),
        fill "arguments" (arguments go)])]) name

def decorator : Parser Node :=
  build "decorator" (inOrder [one (mark "@"), one (orElse (decoratorTarget go)
    (build "parenthesized_expression"
      (inOrder [one (mark "("), one (decoratorTarget go), one (mark ")")])))])

/-- A pattern may follow a modifier. -/
def modifiesPattern : Parser Bool := do
  match ← peek with
  | c :: _ => return isWordChar c || c == '[' || c == '\x7b'
  | [] => return false

def parameterModifier (w : String) : Parts := do
  let n ← oneWordOf [w]
  require (← modifiesPattern)
  return [n]

def parameter : Parser Node := do
  let lead ← inOrder [many (fill "decorator" (decorator go)),
    many (firstOf (["public", "private", "protected", "override", "readonly"].map
      parameterModifier)), fill "pattern" (go .pattern)]
  let kind := if ← nextIs "?" then "optional_parameter" else "required_parameter"
  build kind (inOrder [pure lead, optionally (one (mark "?")),
    optionally (fill "type" (ascription go .closed)), optionally (initializer go inner)])

def formalParameters : Parser Node :=
  build "formal_parameters" (inOrder [one (mark "("),
    optionally (inOrder [separated "," (one (parameter go)), optionally (one (mark ","))]),
    one (mark ")")])

/-- Type parameters and parameters. -/
def bareSignature : Parts :=
  inOrder [optionally (fill "type_parameters" (typeParameters go)),
    fill "parameters" (formalParameters go)]

def callSignature (e : Ending) : Parts :=
  inOrder [bareSignature go, optionally (fill "return_type" (returnAscription go e))]

def functionType (e : Ending) : Parser Node :=
  build "function_type" (inOrder [bareSignature go, one (mark "=>"),
    fill "return_type" (firstOf [assertion go e, typePredicate go e, typ go e])])

def constructorType (e : Ending) : Parser Node :=
  build "constructor_type" (inOrder [optionally (one (keyword "abstract")), one (keyword "new"),
    bareSignature go, one (mark "=>"), fill "type" (typ go e)])

def inferType (e : Ending) : Parser Node :=
  build "infer_type" (inOrder [one (keyword "infer"), one (word "type_identifier"),
    optionally (do
      require !(← atBreak e)
      inOrder [one (keyword "extends"), one (go (.unionType e))])])

/-! Members of object types. -/

/-- The type of an indexed or mapped member, which may come and go. -/
def indexAscription (e : Ending) : Parser Node :=
  firstOf [ascription go e,
    build "omitting_type_annotation" (inOrder [one (mark "-?:"), one (typ go e)]),
    build "adding_type_annotation" (inOrder [one (mark "+?:"), one (typ go e)]),
    build "opting_type_annotation" (inOrder [one (mark "?:"), one (typ go e)])]

def mappedClause : Parser Node :=
  build "mapped_type_clause" (inOrder [fill "name" (word "type_identifier"), one (keyword "in"),
    fill "type" (typ go .closed),
    optionally (inOrder [one (keyword "as"), fill "alias" (typ go .closed)])])

def indexSignature (e : Ending) : Parser Node :=
  build "index_signature" (inOrder [
    optionally (inOrder [optionally (fill "sign" (orElse (mark "-") (mark "+"))),
      one (keyword "readonly")]),
    one (mark "["),
    firstOf [
      inOrder [fill "name" (word "identifier"), one (mark ":"),
        fill "index_type" (typ go .closed)],
      one (mappedClause go)],
    one (mark "]"), fill "type" (indexAscription go e)])

def constructSignature (e : Ending) : Parser Node :=
  build "construct_signature" (inOrder [optionally (one (keyword "abstract")),
    one (keyword "new"), bareSignature go, optionally (fill "type" (ascription go e))])

def accessWords : List String := ["public", "private", "protected"]

/-- Modifiers in their order, each of which may be missing. -/
def modifiers (e : Ending) (rows : List (List String)) : Parts :=
  inOrder (rows.map fun ws => optionally (modifier ws e))

/-- What may stand in front of the name of a method. -/
def methodLead (e : Ending) : Parts :=
  inOrder [modifiers e [accessWords, ["static"], ["override"], ["readonly"], ["async"]],
    optionally (orElse (modifier ["get", "set"] e) (one (mark "*")))]

/-- The name of a member, which may be missing from its object. -/
def memberName : Parts := inOrder [fill "name" (propertyName go), optionally (one (mark "?"))]

/-- The types of a method on the line of its name. -/
def methodSignature (e f : Ending) : Parts := do
  require !(← atBreak e)
  callSignature go f

/-- A property or a method of an object type. -/
def namedMember : Parser Node :=
  orElse
    (build "method_signature" (inOrder [methodLead .plain, memberName go,
      methodSignature go .plain .plain]))
    (build "property_signature" (inOrder [
      modifiers .plain [accessWords, ["static"], ["override"], ["readonly"]], memberName go,
      optionally (fill "type" (ascription go .plain))]))

def typeMember : Parser Node :=
  firstOf [build "call_signature" (callSignature go .plain), constructSignature go .plain,
    indexSignature go .plain, namedMember go]

def memberSeparator : Parts := orElse (semicolon .plain) (one (mark ","))

def objectType (kind : String) : Parser Node :=
  build kind (inOrder [one (mark "\x7b"),
    optionally (inOrder [optionally (one (orElse (mark ",") (mark ";"))), one (typeMember go),
      many (inOrder [memberSeparator, one (typeMember go)]), optionally memberSeparator]),
    one (mark "\x7d")])

/-! Types proper. -/

def tupleMember : Parser Node :=
  firstOf [
    build "required_parameter" (inOrder [
      fill "name" (orElse
        (build "rest_pattern" (inOrder [one (mark "..."), one (word "identifier")]))
        (word "identifier")),
      fill "type" (ascription go .closed)]),
    build "optional_parameter" (inOrder [fill "name" (word "identifier"), one (mark "?"),
      fill "type" (ascription go .closed)]),
    build "rest_type" (inOrder [one (mark "..."), one (typ go .closed)]),
    do
      let t ← typ go .closed
      orElse (buildFrom t "optional_type" (one (mark "?"))) (pure t)]

def tupleType : Parser Node :=
  build "tuple_type" (inOrder [one (mark "["),
    optionally (separated "," (one (tupleMember go))), optionally (one (mark ",")),
    one (mark "]")])

def importCall : Parser Node :=
  build "call_expression" (inOrder [fill "function" (build "import" (one (keyword "import"))),
    fill "arguments" (arguments go)])

def memberOf (n : Node) : Parser Node :=
  buildFrom { n with field := some "object" } "member_expression"
    (inOrder [one (orElse (mark ".") (mark "?.")),
      fill "property" (orElse privateName (word "property_identifier"))])

/-- What a module exports, as a type. -/
def importType : Parser Node := do grow memberOf (← importCall go)

/-- The type of a value. -/
def typeQuery : Parser Node :=
  build "type_query" (inOrder [one (keyword "typeof"), one (do
    let start ← firstOf [importCall go, wordNode "this", word "identifier"]
    let chain ← grow memberOf start
    orElse (buildFrom { chain with field := some "function" } "instantiation_expression"
      (fill "type_arguments" (typeArguments go))) (pure chain))])

def predefinedTypes : List String :=
  ["any", "number", "boolean", "string", "symbol", "void", "unknown", "never", "object"]

def literalWords : List String := ["true", "false", "null", "undefined"]

/-- A word that names a type, or names within modules. -/
def typeName : Parser Node := do
  let chain ← grow (fun n => buildFrom n "nested_identifier"
    (inOrder [one (mark "."), one (word "identifier")])) (← word "identifier")
  let name : Node := match chain.kind, chain.children with
    | "nested_identifier", [a, dot, b] =>
      { chain with
        kind := "nested_type_identifier"
        children := [{ a with field := some "module" }, dot,
          { b with kind := "type_identifier", field := some "name" }] }
    | _, _ => { chain with kind := "type_identifier" }
  orElse (buildFrom { name with field := some "name" } "generic_type"
    (fill "type_arguments" (typeArguments go))) (pure name)

def wordType : Parser Node := do
  match ← peekWord with
  | none => failure
  | some w =>
    if predefinedTypes.contains w then build "predefined_type" (one (keyword w))
    else if literalWords.contains w then build "literal_type" (one (wordNode w))
    else match w with
      | "this" => do
        let n ← keyword "this"
        return { n with kind := "this_type", named := true }
      | "typeof" => typeQuery go
      | "import" => importType go
      | "const" => keyword "const"
      | _ => typeName go

def signedNumber : Parser Node :=
  build "unary_expression" (inOrder [fill "operator" (orElse (mark "-") (mark "+")),
    fill "argument" number])

def primaryType : Parser Node := do
  match ← peek with
  | '(' :: _ =>
    build "parenthesized_type" (inOrder [one (mark "("), one (typ go .closed), one (mark ")")])
  | '\x7b' :: _ => objectType go "object_type"
  | '[' :: _ => tupleType go
  | '`' :: _ => template "template_literal_type" "template_type" (typ go .closed)
  | '*' :: _ => do
    let n ← mark "*"
    return { n with kind := "existential_type", named := true }
  | '?' :: _ => build "flow_maybe_type" (inOrder [one (mark "?"), one (go (.prefixType .closed))])
  | _ => firstOf [wordType go,
      build "literal_type" (one (firstOf [string, number, signedNumber]))]

/-- A type with brackets behind it. -/
def postfixType (e : Ending) : Parser Node := do
  grow (fun n => do
    require !(← atBreak e)
    orElse (buildFrom n "array_type" (inOrder [one (mark "["), one (mark "]")]))
      (buildFrom n "lookup_type" (inOrder [one (mark "["), one (typ go .closed), one (mark "]")])))
    (← primaryType go)

def prefixType (e : Ending) : Parser Node := do
  match ← peek with
  | '(' :: _ | '<' :: _ => orElse (functionType go e) (postfixType go e)
  | _ =>
    match ← peekWord with
    | some "readonly" =>
      build "readonly_type" (inOrder [one (keyword "readonly"), one (go (.prefixType e))])
    | some "keyof" =>
      build "index_type_query" (inOrder [one (keyword "keyof"), one (go (.prefixType e))])
    | some "unique" =>
      orElse (build "predefined_type" (inOrder [one (keyword "unique"), one (keyword "symbol")]))
        (postfixType go e)
    | some "infer" => orElse (inferType go e) (postfixType go e)
    | some "new" => constructorType go e
    | some "abstract" => orElse (constructorType go e) (postfixType go e)
    | _ => postfixType go e

/-- Types with a mark between them, and perhaps in front. -/
def joinedType (kind m : String) (operand : Parser Node) : Parser Node := do
  let first ← orElse (build kind (inOrder [one (mark m), one operand])) operand
  grow (fun n => buildFrom n kind (inOrder [one (mark m), one operand])) first

def unionType (e : Ending) : Parser Node :=
  joinedType "union_type" "|" (joinedType "intersection_type" "&" (go (.prefixType e)))

/-- A type, which may depend on another one. -/
def fullType (e : Ending) : Parser Node := do
  let left ← go (.unionType e)
  let conditional : Parser Node := do
    require !(← atBreak e)
    buildFrom { left with field := some "left" } "conditional_type" (inOrder [
      one (keyword "extends"), fill "right" (go (.unionType .closed)), one (mark "?"),
      fill "consequence" (typ go .closed), one (mark ":"), fill "alternative" (typ go e)])
  orElse conditional (pure left)

end ExportLint.Syntax
