import ExportLint.Syntax.Ending
import ExportLint.Syntax.Literal

/-!
# Goals

The constructs that contain each other. The grammar says for every goal how it is read, given how
the goals within it are read; a reader follows it to a depth. What goals share stands here.
-/
namespace ExportLint.Syntax

/-- Where an expression stands. -/
structure Mode where
  ending : Ending := .closed
  /-- An arrow function may state the type of its result. -/
  typedArrows : Bool := true
  deriving DecidableEq, Repr

/-- Within brackets. -/
def inner : Mode := {}

/-- In a statement. -/
def outer : Mode := { ending := .operand }

inductive Goal where
  | statement
  | block
  | classBody
  | element
  | pattern
  /-- What `new` makes an instance of: a value without calls. -/
  | callee
  /-- What a class extends: a value without operators. -/
  | baseClass
  | expression (m : Mode)
  /-- Operators that bind at least as tightly as a level. -/
  | binary (level : Nat) (m : Mode)
  | unary (m : Mode)
  | type (e : Ending)
  | unionType (e : Ending)
  | prefixType (e : Ending)
  deriving DecidableEq, Repr

/-- How goals are read. -/
abbrev Grammar := Goal → Parser Node

/-- A node that starts with one that is read already. -/
def buildFrom (n : Node) (kind : String) (parts : Parts) : Parser Node :=
  build kind (inOrder [pure [n], parts])

def growFrom (step : Node → Parser Node) : Nat → Node → Parser Node
  | 0, n => pure n
  | fuel + 1, n => fun c =>
    match step n c with
    | none => some (n, c)
    | some (m, d) => growFrom step fuel m d

/-- Extend a node by further steps, as often as they come. -/
def grow (step : Node → Parser Node) (n : Node) : Parser Node := do
  growFrom step (← get).rest.length n

/-- An equals sign that is no part of a longer mark. -/
def equals : Parser Node := do
  let cs ← peek
  match cs with
  | '=' :: c :: _ => if c = '=' ∨ c = '>' then failure else mark "="
  | '=' :: [] => mark "="
  | _ => failure

/-- Words that have a node of their own kind. -/
def wordNode (s : String) : Parser Node := do
  let n ← keyword s
  return { n with named := true }

def privateName : Parser Node := do
  toNext
  let c ← get
  match c.rest with
  | '#' :: rest =>
    match wordOf (rest.length + 1) true rest with
    | [] => failure
    | w => takeToken "private_property_identifier" true ('#' :: w)
  | _ => failure

variable (go : Grammar)

def expr (m : Mode) : Parser Node := go (.expression m)

/-- Expressions with commas between them. -/
def expressions (m : Mode) : Parser Node := do
  match ← separated "," (one (expr go m)) with
  | [n] => return n
  | ns => build "sequence_expression" (pure ns)

def computedName : Parser Node :=
  build "computed_property_name" (inOrder [one (mark "["), one (expr go inner), one (mark "]")])

def propertyName : Parser Node :=
  firstOf [word "property_identifier", privateName, string, number, computedName go]

/-- A name of a property comes next, or a star in front of one. -/
def atPropertyName : Parser Bool := do
  match ← peek with
  | c :: _ => return isWordChar c || c == '[' || c == '#' || c == '"' || c == '\'' || c == '*'
  | [] => return false

/-- A word that modifies the name behind it. On its own it is a name. -/
def modifier (ws : List String) (e : Ending) : Parts := do
  let n ← oneWordOf ws
  require !(← atBreak e)
  require (← atPropertyName)
  if ["public", "private", "protected"].contains n.kind then
    return [{ n with kind := "accessibility_modifier", named := true }]
  else if n.kind = "override" then return [{ n with kind := "override_modifier", named := true }]
  else return [n]

def initializer (m : Mode) : Parts := inOrder [one equals, fill "value" (expr go m)]

def spread : Parser Node :=
  build "spread_element" (inOrder [one (mark "..."), one (expr go inner)])

def arguments : Parser Node :=
  build "arguments" (inOrder [one (mark "("), sparse (one (orElse (spread go) (expr go inner))),
    one (mark ")")])

def parenthesized : Parser Node :=
  build "parenthesized_expression" (inOrder [one (mark "("), one (expressions go inner),
    one (mark ")")])

/-- The literal text of a template up to a mark that ends it or an insertion. -/
def templateText : Nat → List Char → List Char
  | 0, _ => []
  | fuel + 1, cs =>
    match cs with
    | '`' :: _ => []
    | '$' :: '\x7b' :: _ => []
    | '\\' :: rest =>
      match escapeOf rest with
      | some (e, after) => '\\' :: e ++ templateText fuel after
      | none => []
    | c :: rest => c :: templateText fuel rest
    | [] => []

def templateChunk : Parts := do
  let c ← get
  match templateText (c.rest.length + 1) c.rest with
  | [] => failure
  | text => one (takeToken "string_fragment" true text)

/-- Text between backquotes, with insertions. -/
def template (kind part : String) (insertion : Parser Node) : Parser Node :=
  build kind (inOrder [one (mark "\x60"), many (firstOf [templateChunk,
    one (build part (inOrder [one (takeToken "$\x7b" false "$\x7b".toList), one insertion,
      one (mark "\x7d")]))]), one (takeToken "\x60" false ['`'])])

def templateString : Parser Node :=
  template "template_string" "template_substitution" (expressions go inner)

end ExportLint.Syntax
