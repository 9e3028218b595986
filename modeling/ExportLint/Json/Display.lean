import ExportLint.Decimal.Shortest
import ExportLint.Json.Value
import ExportLint.Text.Quoted

/-!
# Values in messages

The form in which a value of any kind is named in a message. Texts stand for themselves on the
outside and in quotation marks within a list or an object.
-/
namespace ExportLint.Json

/-- Numbers in messages. -/
def displayForm : Decimal.NumberForm := ⟨-4, 16, 2, "nan", "inf"⟩

mutual

def shown : Json → String
  | .null => "None"
  | .bool b => if b then "True" else "False"
  | .int i => toString i
  | .real x => x.render displayForm
  | .str s => Text.quoted s
  | .arr [] => "[]"
  | .arr (v :: vs) => "[" ++ shown v ++ shownItems vs ++ "]"
  | .obj [] => "\x7b\x7d"
  | .obj ((k, v) :: ms) =>
    "\x7b" ++ Text.quoted k ++ ": " ++ shown v ++ shownMembers ms ++ "\x7d"

def shownItems : List Json → String
  | [] => ""
  | v :: vs => ", " ++ shown v ++ shownItems vs

def shownMembers : List (String × Json) → String
  | [] => ""
  | (k, v) :: ms => ", " ++ Text.quoted k ++ ": " ++ shown v ++ shownMembers ms

end

/-- A value in running text. -/
def display : Json → String
  | .str s => s
  | v => v.shown

end ExportLint.Json
