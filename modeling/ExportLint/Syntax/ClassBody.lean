import ExportLint.Syntax.TypeForm

/-!
# Class bodies

Methods, signatures, fields, index signatures and static blocks. A method has a body; a signature
and a field end like statements.
-/
namespace ExportLint.Syntax

variable (go : Grammar)

def classSeparator (e : Ending) : Parts := orElse (semicolon e) (one (mark ","))

/-- A method with its body, or a signature in its place. -/
def classMethod : Parts := do
  let head ← inOrder [many (fill "decorator" (decorator go)), methodLead .plain, memberName go,
    methodSignature go .plain .signature]
  if ← nextIs "\x7b" then
    inOrder [one (build "method_definition" (inOrder [pure head, fill "body" (go .block)])),
      optionally (semicolon .plain)]
  else inOrder [one (build "method_signature" (pure head)), classSeparator .signature]

/-- A method that other classes define. -/
def abstractMethod : Parts :=
  inOrder [one (build "abstract_method_signature" (inOrder [modifiers .plain [accessWords],
      modifier ["abstract"] .plain, modifiers .plain [["override"]],
      optionally (orElse (modifier ["get", "set"] .plain) (one (mark "*"))), memberName go,
      methodSignature go .plain .signature])),
    classSeparator .plain]

/-- What may stand in front of the name of a field. -/
def fieldLead : Parts :=
  inOrder [
    orElse (inOrder [modifier ["declare"] .plain, modifiers .plain [accessWords]])
      (modifiers .plain [accessWords, ["declare"]]),
    firstOf [inOrder [modifier ["abstract"] .plain, modifiers .plain [["readonly"]]],
      inOrder [modifier ["readonly"] .plain, modifiers .plain [["abstract"]]],
      modifier ["accessor"] .plain,
      modifiers .plain [["static"], ["override"], ["readonly"]]]]

def classField : Parts := do
  let lead ← inOrder [many (fill "decorator" (decorator go)), fieldLead]
  let name ← inOrder [fill "name" (propertyName go),
    optionally (one (orElse (mark "?") (mark "!"))),
    optionally (fill "type" (ascription go .plain))]
  let value ← optionally (initializer go outer)
  let field ← build "public_field_definition" (pure (lead ++ name ++ value))
  inOrder [pure [field], classSeparator (if value.isEmpty then .plain else .operand)]

def staticBlock : Parser Node :=
  build "class_static_block" (inOrder [one (keyword "static"), fill "body" (go .block)])

def classMember : Parts :=
  firstOf [one (mark ";"), one (staticBlock go),
    inOrder [one (indexSignature go .plain), classSeparator .plain],
    classMethod go, abstractMethod go, classField go]

def classBody : Parser Node :=
  build "class_body" (inOrder [one (mark "\x7b"), many (classMember go), one (mark "\x7d")])

end ExportLint.Syntax
