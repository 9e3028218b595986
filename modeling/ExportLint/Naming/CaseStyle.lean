import ExportLint.Named
import ExportLint.Naming.Words

/-!
# Case styles

Five ways of putting the words of an identifier together. An identifier never starts with a digit,
so an underscore is put in front of one that would.
-/
namespace ExportLint

inductive CaseStyle where
  | camel
  | pascal
  | snake
  | kebab
  | constant
  deriving DecidableEq, Repr

namespace CaseStyle

instance : Named CaseStyle where
  all := [.camel, .pascal, .snake, .kebab, .constant]
  name
    | .camel => "camelCase"
    | .pascal => "PascalCase"
    | .snake => "snake_case"
    | .kebab => "kebab-case"
    | .constant => "CONSTANT_CASE"

/-- Words with a separator between them. -/
def separate (c : Char) : List (List Char) → List Char
  | [] => []
  | [w] => w
  | w :: ws => w ++ c :: separate c ws

/-- How many words a camel-case name keeps in lower case: the first, and one after a number. -/
def leading : List (List Char) → Nat
  | w :: _ :: _ => if w.all Naming.isDigit then 2 else 1
  | _ => 1

def join (style : CaseStyle) (ws : List (List Char)) : List Char :=
  match style with
  | .camel =>
    (ws.take (leading ws)).flatten ++ (ws.drop (leading ws)).flatMap Text.CaseMap.capitalize
  | .pascal => ws.flatMap Text.CaseMap.capitalize
  | .snake => separate '_' ws
  | .kebab => separate '-' ws
  | .constant => separate '_' (ws.map (·.map Text.CaseMap.asciiUpper))

/-- An underscore in front of a name that starts with a digit. -/
def guardDigit (cs : List Char) : List Char :=
  if cs.head?.any Naming.isDigit then '_' :: cs else cs

/-- A name in a style. A name without words stays as it is. -/
def apply (style : CaseStyle) (name : String) : String :=
  match Naming.words name with
  | [] => name
  | ws => String.ofList (guardDigit (style.join ws))

end CaseStyle

end ExportLint
