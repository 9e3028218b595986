import ExportLint.Text.Letter.Table

/-!
# Classes of characters

Words, digits, blanks and printable characters. Each class decides ASCII by a direct test and leaves
the other scripts to the tables.
-/
namespace ExportLint.Text

/-- Membership in a property whose changes are listed in ascending order: an odd number of changes
lie at or below the code point. -/
def Letter.within (changes : Array Nat) (c : Char) : Bool :=
  changes.foldl (fun odd n => if n ≤ c.toNat then !odd else odd) false

namespace Letter

def isAscii (c : Char) : Bool := c.toNat < 128

def isAsciiUpper (c : Char) : Bool := 'A' ≤ c && c ≤ 'Z'

def isAsciiLower (c : Char) : Bool := 'a' ≤ c && c ≤ 'z'

def isAsciiDigit (c : Char) : Bool := '0' ≤ c && c ≤ '9'

def isAsciiAlpha (c : Char) : Bool := isAsciiUpper c || isAsciiLower c

def isAsciiWord (c : Char) : Bool := isAsciiAlpha c || isAsciiDigit c || c == '_'

/-- ASCII blanks: tab to carriage return, the four separators, and the space. -/
def isAsciiBlank (c : Char) : Bool :=
  (9 ≤ c.toNat && c.toNat ≤ 13) || (28 ≤ c.toNat && c.toNat ≤ 32)

/-- Letters, digits, other numeric characters, and the underscore. -/
def isWord (c : Char) : Bool :=
  if isAscii c then isAsciiWord c else within Table.word c

/-- Decimal digits of any script. -/
def isDigit (c : Char) : Bool :=
  if isAscii c then isAsciiDigit c else within Table.decimal c

/-- The last change at or below a character. -/
def lastChange (changes : Array Nat) (c : Char) : Nat :=
  changes.foldl (fun last n => if n ≤ c.toNat then n else last) 0

/-- Decimal digits of value zero: those of each script come in runs of ten. -/
def isZeroDigit (c : Char) : Bool :=
  if isAscii c then c == '0'
  else within Table.decimal c && (c.toNat - lastChange Table.decimal c) % 10 == 0

/-- Blank characters of any script, line boundaries among them. -/
def isBlank (c : Char) : Bool :=
  if isAscii c then isAsciiBlank c else within Table.blank c

/-- Characters that can be shown as they are. -/
def isPrintable (c : Char) : Bool :=
  if isAscii c then 32 ≤ c.toNat && c.toNat < 127 else !within Table.unprintable c

/-- Characters that belong to a pair of an upper-case and a lower-case form. -/
def isCased (c : Char) : Bool :=
  if isAscii c then isAsciiAlpha c else within Table.cased c

/-- Characters that are passed over where the end of a word is looked for, such as apostrophes,
accents and other marks. -/
def isCaseIgnorable (c : Char) : Bool :=
  if isAscii c then c == '\'' || c == '.' || c == ':' || c == '^' || c == '\x60'
  else within Table.caseIgnorable c

end Letter

end ExportLint.Text
