import ExportLint.Syntax.Pattern

/-!
# Expressions

Expressions from assignments down to single words, with the operators in the order in which they
bind.
-/
namespace ExportLint.Syntax

variable (go : Grammar)

/-! Functions. -/

/-- The word that makes a function asynchronous; on its own it is a name. -/
def asyncMark : Parts := do
  let n ← keyword "async"
  require !(← nextIs "=>")
  return [n]

def functionHead : Parts :=
  inOrder [optionally (one (keyword "async")), one (keyword "function")]

def functionExpression : Parser Node := do
  let head ← functionHead
  let star ← optionally (one (mark "*"))
  build (if star.isEmpty then "function_expression" else "generator_function")
    (inOrder [pure head, pure star, optionally (fill "name" (word "identifier")),
      callSignature go .closed, fill "body" (go .block)])

def arrowSignature (m : Mode) : Parts :=
  if m.typedArrows then callSignature go .closed else bareSignature go

def arrowBody (m : Mode) : Parser Node := do
  if ← nextIs "\x7b" then go .block else expr go m

def arrowFunction (m : Mode) : Parser Node :=
  build "arrow_function" (inOrder [optionally asyncMark,
    orElse (inOrder [fill "parameter" (word "identifier"), one (mark "=>")])
      (inOrder [arrowSignature go m, one (mark "=>")]),
    fill "body" (arrowBody go m)])

/-! Objects and classes. -/

def objectMember : Parser Node :=
  firstOf [spread go,
    build "method_definition" (inOrder [methodLead .closed, memberName go,
      callSignature go .closed, fill "body" (go .block)]),
    build "pair" (inOrder [fill "key" (propertyName go), one (mark ":"),
      fill "value" (expr go inner)]),
    word "shorthand_property_identifier"]

def object : Parser Node :=
  build "object" (inOrder [one (mark "\x7b"), sparse (one (objectMember go)), one (mark "\x7d")])

def array : Parser Node :=
  build "array" (inOrder [one (mark "["), sparse (one (orElse (spread go) (expr go inner))),
    one (mark "]")])

def extendsClause : Parser Node :=
  build "extends_clause" (inOrder [one (keyword "extends"),
    separated "," (inOrder [fill "value" (go .baseClass),
      optionally (fill "type_arguments" (typeArguments go))])])

def implementsClause : Parser Node :=
  build "implements_clause" (inOrder [one (keyword "implements"),
    separated "," (one (typ go .closed))])

def classHeritage : Parts :=
  optionally (one (build "class_heritage" (orElse
    (inOrder [one (extendsClause go), optionally (one (implementsClause go))])
    (one (implementsClause go)))))

/-- A name of a class: any word that does not open a clause. -/
def className : Parser Node := do
  match ← peekWord with
  | some "extends" | some "implements" => failure
  | _ => word "type_identifier"

def classRest : Parts :=
  inOrder [optionally (fill "type_parameters" (typeParameters go)), classHeritage go,
    fill "body" (go .classBody)]

def classExpression : Parser Node :=
  build "class" (inOrder [many (fill "decorator" (decorator go)), one (keyword "class"),
    optionally (fill "name" className), classRest go])

/-! Chains of places and calls. -/

def optionalChain : Parser Node := do
  match ← peek with
  | '?' :: '.' :: c :: _ =>
    if isDecimalDigit c then failure
    else
      let n ← mark "?."
      return { n with kind := "optional_chain", named := true }
  | _ => failure

def memberSuffix (n : Node) : Parser Node :=
  buildFrom { n with field := some "object" } "member_expression"
    (inOrder [orElse (one (mark ".")) (fill "optional_chain" optionalChain),
      fill "property" (orElse privateName (word "property_identifier"))])

def indexSuffix (n : Node) : Parser Node :=
  buildFrom { n with field := some "object" } "subscript_expression"
    (inOrder [optionally (fill "optional_chain" optionalChain), one (mark "["),
      fill "index" (expressions go inner), one (mark "]")])

def callSuffix (n : Node) : Parser Node :=
  buildFrom { n with field := some "function" } "call_expression" (orElse
    (inOrder [optionally (fill "optional_chain" optionalChain),
      optionally (fill "type_arguments" (typeArguments go)), fill "arguments" (arguments go)])
    (fill "arguments" (templateString go)))

/-- What a value is said not to be null with. -/
def nonNullSuffix (m : Mode) (n : Node) : Parser Node := do
  match ← peek with
  | '!' :: '=' :: _ => failure
  | _ =>
    require !(← atBreak m.ending)
    buildFrom n "non_null_expression" (one (mark "!"))

/-- Type arguments behind a value, where nothing follows that could be compared with it. -/
def instantiationSuffix (m : Mode) (n : Node) : Parser Node := do
  let r ← buildFrom n "instantiation_expression" (fill "type_arguments" (typeArguments go))
  let closes := match ← peek with
    | [] => true
    | c :: _ => ")],;:.?=\x7d".toList.contains c
  require (closes || (← atBreak m.ending))
  return r

def valueSuffix (m : Mode) (n : Node) : Parser Node :=
  firstOf [memberSuffix n, indexSuffix go n, callSuffix go n, nonNullSuffix m n]

def newExpression : Parser Node :=
  orElse
    (build "meta_property" (inOrder [one (keyword "new"), one (mark "."), one (keyword "target")]))
    (build "new_expression" (inOrder [one (keyword "new"), fill "constructor" (go .callee),
      optionally (fill "type_arguments" (typeArguments go)),
      optionally (fill "arguments" (arguments go))]))

def importExpression : Parser Node :=
  orElse
    (build "meta_property" (inOrder [one (keyword "import"), one (mark "."), one (keyword "meta")]))
    (do
      let n ← build "import" (one (keyword "import"))
      require ((← nextIs "(") || (← nextIs "."))
      return n)

/-- Words that stand for values of their own. -/
def valueWords : List String := ["this", "super", "true", "false", "null", "undefined"]

/-- Words that never stand for a value by themselves. -/
def operatorWords : List String :=
  ["typeof", "void", "delete", "await", "yield", "function", "class", "import"]

def wordExpression : Parser Node := do
  match ← peekWord with
  | none => failure
  | some w =>
    if valueWords.contains w then wordNode w
    else match w with
      | "function" => functionExpression go
      | "async" => orElse (functionExpression go) (word "identifier")
      | "class" => classExpression go
      | "new" => newExpression go
      | "import" => importExpression
      | _ => if operatorWords.contains w then failure else word "identifier"

/-- A typed or plain expression in parentheses. -/
def parenthesizedValue : Parser Node :=
  orElse (parenthesized go)
    (build "parenthesized_expression" (inOrder [one (mark "("), one (expr go inner),
      fill "type" (ascription go .closed), one (mark ")")]))

def primary (markup : Bool) : Parser Node := do
  match ← peek with
  | '(' :: _ => parenthesizedValue go
  | '[' :: _ => array go
  | '\x7b' :: _ => object go
  | '`' :: _ => templateString go
  | '"' :: _ | '\'' :: _ => string
  | '/' :: _ => regex
  | '#' :: _ => do
    -- A private name is no value: it may be looked for in one.
    let n ← privateName
    require ((← peekWord) = some "in")
    return n
  | '@' :: _ => classExpression go
  | '<' :: _ => if markup then go .element else failure
  | '.' :: _ => number
  | c :: _ => if isDecimalDigit c then number else wordExpression go
  | [] => failure

/-- A value without calls. -/
def callee (markup : Bool) : Parser Node := do
  grow (fun n => firstOf [memberSuffix n, indexSuffix go n, nonNullSuffix inner n])
    (← primary go markup)

/-- A value without operators. -/
def baseClass (markup : Bool) : Parser Node := do
  grow (valueSuffix go inner) (← primary go markup)

end ExportLint.Syntax
