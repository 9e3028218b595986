import ExportLint.Syntax.TypeForm

/-!
# Markup

Elements with attributes, text and insertions between their tags. Names of elements refer to values;
names of attributes do not.
-/
namespace ExportLint.Syntax

variable (go : Grammar)

def isTagChar (c : Char) : Bool :=
  Text.Letter.isAsciiAlpha c || isDecimalDigit c || c == '_' || c == '$'

/-- A name with dashes in it. -/
def dashedOf (cs : List Char) : List Char :=
  let head := cs.takeWhile isTagChar
  match cs.drop head.length with
  | '-' :: rest =>
    if head.isEmpty || head.head?.any isDecimalDigit then []
    else head ++ '-' :: rest.takeWhile fun c => isTagChar c || c == '-'
  | _ => []

def tagWord (kind : String) : Parser Node := orElse (literal kind dashedOf) (word kind)

def spacedName (kind : String) : Parser Node :=
  build "jsx_namespace_name" (inOrder [one (tagWord kind), one (mark ":"), one (tagWord kind)])

def elementName : Parser Node :=
  orElse (spacedName "identifier") (do
    grow (fun n => buildFrom { n with field := some "object" } "member_expression"
      (inOrder [one (mark "."), fill "property" (word "property_identifier")]))
      (← tagWord "identifier"))

def insertion : Parser Node :=
  build "jsx_expression" (inOrder [one (mark "\x7b"),
    optionally (one (orElse (spread go) (expressions go inner))), one (mark "\x7d")])

/-- A string that may go over lines, in which a backslash has no meaning. -/
def attributeString : List Char → List Char
  | q :: rest =>
    if q = '"' ∨ q = '\'' then
      let body := rest.takeWhile (· != q)
      if body.length < rest.length then q :: body ++ [q] else []
    else []
  | [] => []

def attributeValue : Parser Node :=
  firstOf [literal "string" attributeString, insertion go, go .element]

def tagAttribute : Parser Node :=
  orElse
    (build "jsx_attribute" (inOrder [
      one (orElse (spacedName "property_identifier") (tagWord "property_identifier")),
      optionally (inOrder [one (mark "="), one (attributeValue go)])]))
    (insertion go)

/-- A tag up to the mark that closes it. -/
def tagHead : Parts :=
  inOrder [one (mark "<"), optionally (inOrder [fill "name" elementName,
    optionally (fill "type_arguments" (typeArguments go)),
    many (fill "attribute" (tagAttribute go))])]

def isPlainText (c : Char) : Bool := !("<>\x7b\x7d&".toList.contains c)

def plainText : Parser Node := do
  match (← get).rest.takeWhile isPlainText with
  | [] => failure
  | text => takeToken "jsx_text" true text

/-- A character by its number or its name. -/
def characterReferenceOf : List Char → List Char
  | '&' :: rest =>
    let body := rest.takeWhile (· != ';')
    let ok := match body with
      | '#' :: x :: digits =>
        if x = 'x' ∨ x = 'X' then
          !digits.isEmpty && digits.length ≤ 6 && digits.all isHexDigit
        else digits.length ≤ 4 && (x :: digits).all isDecimalDigit
      | name => !name.isEmpty && name.length ≤ 30 && name.all fun c =>
          Text.Letter.isAsciiAlpha c
    if ok && body.length < rest.length then '&' :: body ++ [';'] else []
  | _ => []

def child : Parser Node :=
  firstOf [plainText, literal "html_character_reference" characterReferenceOf,
    do
      require !(← nextIs "</")
      go .element,
    insertion go]

def closingTag : Parser Node :=
  build "jsx_closing_element" (inOrder [one (mark "</"), optionally (fill "name" elementName),
    one (mark ">")])

/-- An element: a single tag, or tags with children between them. -/
def element : Parser Node := do
  let head ← tagHead go
  orElse
    (do
      -- Without a name there is nothing to close at once.
      require (1 < head.length)
      build "jsx_self_closing_element" (inOrder [pure head, one (mark "/>")]))
    (build "jsx_element" (inOrder [
      fill "open_tag" (build "jsx_opening_element" (inOrder [pure head, one (mark ">")])),
      many (one (child go)), fill "close_tag" closingTag]))

end ExportLint.Syntax
