import ExportLint.Syntax.Expression

/-!
# Operators

Unary and binary operators, conditions and assignments. Binary operators bind by their level; those
of one level group to the left, powers to the right.
-/
namespace ExportLint.Syntax

variable (go : Grammar)

/-! Unary operators. -/

def unaryWith (kind : String) (operator : Parser Node) (m : Mode) : Parser Node :=
  build kind (inOrder [fill "operator" operator, fill "argument" (go (.unary m))])

/-- A value with its suffixes, and an operator that changes it at most. -/
def postfixValue (markup : Bool) (m : Mode) : Parser Node := do
  let value ← grow (fun n => orElse (valueSuffix go m n) (instantiationSuffix go m n))
    (← primary go markup)
  let update : Parser Node := do
    require !(← atBreak m.ending)
    buildFrom { value with field := some "argument" } "update_expression"
      (fill "operator" (orElse (mark "++") (mark "--")))
  orElse update (pure value)

def typeAssertion (m : Mode) : Parser Node :=
  build "type_assertion" (inOrder [one (typeArguments go), one (go (.unary m))])

def unary (markup : Bool) (m : Mode) : Parser Node := do
  match ← peek with
  | '+' :: '+' :: _ => unaryWith go "update_expression" (mark "++") m
  | '-' :: '-' :: _ => unaryWith go "update_expression" (mark "--") m
  | '!' :: _ => unaryWith go "unary_expression" (mark "!") m
  | '~' :: _ => unaryWith go "unary_expression" (mark "~") m
  | '+' :: _ => unaryWith go "unary_expression" (mark "+") m
  | '-' :: _ => unaryWith go "unary_expression" (mark "-") m
  | '<' :: _ => if markup then postfixValue go markup m else typeAssertion go m
  | _ =>
    match ← peekWord with
    | some "typeof" => unaryWith go "unary_expression" (keyword "typeof") m
    | some "void" => unaryWith go "unary_expression" (keyword "void") m
    | some "delete" => unaryWith go "unary_expression" (keyword "delete") m
    | some "await" =>
      build "await_expression" (inOrder [one (keyword "await"), one (go (.unary m))])
    | _ => postfixValue go markup m

/-! Binary operators. -/

/-- The levels of the marks that stand between two values, longer marks first. -/
def operatorLevels : List (String × Nat) :=
  [(">>>", 9), ("===", 7), ("!==", 7), ("**", 12), ("&&", 3), ("||", 2), ("??", 1), ("<<", 9),
    (">>", 9), ("<=", 8), (">=", 8), ("==", 7), ("!=", 7), ("+", 10), ("-", 10), ("*", 11),
    ("/", 11), ("%", 11), ("<", 8), (">", 8), ("&", 6), ("^", 5), ("|", 4)]

def comparisonLevel : Nat := 8

def powerLevel : Nat := 12

/-- Marks that an equals sign behind them turns into an assignment. -/
def assignable : List String :=
  ["+", "-", "*", "/", "%", "^", "&", "|", ">>", ">>>", "<<", "**", "&&", "||", "??"]

/-- The operator at the start of a text. -/
def operatorOf (cs : List Char) : Option (String × Nat) := do
  let (s, level) ← operatorLevels.find? fun o => o.1.toList.isPrefixOf cs
  if assignable.contains s && (cs.drop s.length).head? == some '=' then none
  else if (s = "+" ∨ s = "-") ∧ (cs.drop 1).head? = s.toList.head? then none
  else some (s, level)

/-- A value that is seen as one of a type. -/
def typedAs (kind w : String) (m : Mode) (left : Node) : Parser Node :=
  buildFrom left kind (inOrder [one (keyword w), one (typ go m.ending)])

/-- A value with one more operator behind it that binds at least as tightly as a level. -/
def binaryStep (level : Nat) (m : Mode) (left : Node) : Parser Node := do
  require !(← atBreak m.ending)
  let cs ← peek
  match operatorOf cs with
  | some (s, l) =>
    require (level ≤ l)
    buildFrom { left with field := some "left" } "binary_expression"
      (inOrder [fill "operator" (mark s),
        fill "right" (go (.binary (if l = powerLevel then l else l + 1) m))])
  | none =>
    require (level ≤ comparisonLevel)
    match ← peekWord with
    | some "as" => typedAs go "as_expression" "as" m left
    | some "satisfies" => typedAs go "satisfies_expression" "satisfies" m left
    | some w =>
      require (w == "in" || w == "instanceof")
      buildFrom { left with field := some "left" } "binary_expression"
        (inOrder [fill "operator" (keyword w),
          fill "right" (go (.binary (comparisonLevel + 1) m))])
    | none => failure

def binary (level : Nat) (m : Mode) : Parser Node := do
  grow (binaryStep go level m) (← go (.unary m))

/-! Conditions and assignments. -/

/-- A question mark that asks for one of two values. -/
def conditionMark : Parser Node := do
  match ← peek with
  | '?' :: '?' :: _ => failure
  | '?' :: rest =>
    match rest.dropWhile isSpace with
    | '.' :: c :: _ => if isDecimalDigit c then mark "?" else failure
    | c :: _ => if c = ':' ∨ c = ')' ∨ c = ',' then failure else mark "?"
    | [] => failure
  | _ => failure

def conditional (m : Mode) : Parser Node := do
  let test ← go (.binary 0 m)
  let branches (first : Mode) : Parts :=
    inOrder [fill "consequence" (expr go first), one (mark ":"), fill "alternative" (expr go m)]
  orElse
    (buildFrom { test with field := some "condition" } "ternary_expression"
      (inOrder [one conditionMark,
        orElse (branches inner) (branches { inner with typedArrows := false })]))
    (pure test)

/-- Values that may be assigned to. -/
def isTarget (n : Node) : Bool :=
  ["identifier", "undefined", "member_expression", "subscript_expression",
    "parenthesized_expression", "non_null_expression"].contains n.kind

def assignmentMarks : List String :=
  [">>>=", "**=", "&&=", "||=", "??=", ">>=", "<<=", "+=", "-=", "*=", "/=", "%=", "^=", "&=", "|="]

/-- An assignment to a value that is read already. -/
def assignTo (m : Mode) (target : Node) : Parser Node := do
  require (isTarget target)
  let left := { target with field := some "left" }
  orElse
    (buildFrom left "assignment_expression"
      (inOrder [one equals, fill "right" (expr go m)]))
    (buildFrom left "augmented_assignment_expression"
      (inOrder [fill "operator" (firstOf (assignmentMarks.map mark)), fill "right" (expr go m)]))

/-- An assignment to the parts of a value. -/
def assignParts (m : Mode) : Parser Node :=
  build "assignment_expression" (inOrder [fill "left" (destructuring go), one equals,
    fill "right" (expr go m)])

def yieldExpression (m : Mode) : Parser Node :=
  build "yield_expression" (inOrder [one (keyword "yield"), do
    if ← atBreak m.ending then nothing
    else orElse (inOrder [one (mark "*"), one (expr go m)]) (optionally (one (expr go m)))])

/-- The declaration of a resource, which is an assignment. -/
def usingExpression (m : Mode) : Parser Node :=
  build "assignment_expression" (inOrder [one (keyword "using"), fill "left" (word "identifier"),
    one equals, fill "right" (expr go m)])

/-- An arrow function can start here. -/
def mayBeArrow : Parser Bool := do
  match ← peek with
  | c :: _ => return c == '(' || c == '<' || isWordChar c
  | [] => return false

def expression (m : Mode) : Parser Node := do
  let plain : Parser Node := do
    let value ← conditional go m
    orElse (assignTo go m value) (pure value)
  let start := (← peek).head?
  let arrow : Parser Node := if ← mayBeArrow then arrowFunction go m else failure
  if start = some '[' ∨ start = some '\x7b' then orElse (assignParts go m) plain
  else
    match ← peekWord with
    | some "yield" => yieldExpression go m
    | some "using" => firstOf [usingExpression go m, arrow, plain]
    | _ => orElse arrow plain

end ExportLint.Syntax
