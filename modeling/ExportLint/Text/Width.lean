import ExportLint.Text.Letter
import ExportLint.Text.Width.Table

/-!
# Width of text on a terminal

A text is as wide as its characters together. Most fill one column, those of East Asian scripts fill
two, and controls and combining marks fill none.
-/
namespace ExportLint.Text

namespace Width

def ofChar (c : Char) : Nat :=
  if Letter.isAscii c then if 32 ≤ c.toNat && c.toNat < 127 then 1 else 0
  else if Letter.within Table.empty c then 0
  else if Letter.within Table.double c then 2
  else 1

def ofChars : List Char → Nat
  | [] => 0
  | c :: cs => ofChar c + ofChars cs

end Width

/-- The columns that a text fills. -/
def width (s : String) : Nat := Width.ofChars s.toList

def blanks (n : Nat) : String := String.ofList (List.replicate n ' ')

end ExportLint.Text
