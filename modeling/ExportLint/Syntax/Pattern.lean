import ExportLint.Syntax.TypeForm

/-!
# Patterns

What stands on the left of an assignment or names a parameter: a name, a place, or a pattern that
takes a value apart.
-/
namespace ExportLint.Syntax

variable (go : Grammar)

/-- A part of a value by its name or its index. -/
def place (n : Node) : Parser Node :=
  orElse
    (buildFrom { n with field := some "object" } "member_expression"
      (inOrder [one (mark "."), fill "property" (orElse privateName (word "property_identifier"))]))
    (buildFrom { n with field := some "object" } "subscript_expression"
      (inOrder [one (mark "["), fill "index" (expressions go inner), one (mark "]")]))

def restPattern : Parser Node :=
  build "rest_pattern" (inOrder [one (mark "..."), one (go .pattern)])

/-- A pattern, with a value that stands in for a missing one at most. -/
def patternElement : Parser Node := do
  let p ← go .pattern
  orElse (buildFrom { p with field := some "left" } "assignment_pattern"
    (inOrder [one equals, fill "right" (expr go inner)])) (pure p)

def arrayPattern : Parser Node :=
  build "array_pattern" (inOrder [one (mark "["), sparse (one (patternElement go)), one (mark "]")])

def propertyPattern : Parser Node :=
  firstOf [restPattern go,
    build "pair_pattern" (inOrder [fill "key" (propertyName go), one (mark ":"),
      fill "value" (patternElement go)]),
    build "object_assignment_pattern" (inOrder [
      fill "left" (word "shorthand_property_identifier_pattern"), one equals,
      fill "right" (expr go inner)]),
    word "shorthand_property_identifier_pattern"]

def objectPattern : Parser Node :=
  build "object_pattern" (inOrder [one (mark "\x7b"), sparse (one (propertyPattern go)),
    one (mark "\x7d")])

def destructuring : Parser Node := orElse (objectPattern go) (arrayPattern go)

def pattern : Parser Node := do
  match ← peek with
  | '\x7b' :: _ => objectPattern go
  | '[' :: _ => arrayPattern go
  | '.' :: _ => restPattern go
  | _ => grow (place go) (← orElse (wordNode "this") (word "identifier"))

end ExportLint.Syntax
