import ExportLint.Text.CaseMap.Table
import ExportLint.Text.Letter

/-!
# Case of characters and words

Lower case, title case and capitals. A capital sigma at the end of a word becomes its final form.
-/
namespace ExportLint.Text.CaseMap

def Table.Run.map? (r : Table.Run) (n : Nat) : Option Nat :=
  if r.first ≤ n ∧ n ≤ r.last ∧ (n - r.first) % r.step = 0 then some (Int.toNat (n + r.shift))
  else none

/-- The image of a character under the first run that holds it, or the character itself. -/
def mapWith (runs : Array Table.Run) (c : Char) : Char :=
  ((runs.findSome? (·.map? c.toNat)).map Char.ofNat).getD c

def asciiLower (c : Char) : Char :=
  if Letter.isAsciiUpper c then Char.ofNat (c.toNat + 32) else c

def asciiUpper (c : Char) : Char :=
  if Letter.isAsciiLower c then Char.ofNat (c.toNat - 32) else c

/-- The lower-case form of one character, where there is a single one. -/
def lowerChar (c : Char) : Char :=
  if Letter.isAscii c then asciiLower c else mapWith Table.lower c

/-- Lower case. The dotted capital I takes a combining dot along. -/
def lowerOf (c : Char) : List Char :=
  if c.toNat = 304 then [Char.ofNat 105, Char.ofNat 775] else [lowerChar c]

/-- Title case of a first letter. -/
def titleOf (c : Char) : List Char :=
  if Letter.isAscii c then [asciiUpper c]
  else
    match Table.titleSpecial.find? (·.1 = c.toNat) with
    | some (_, cs) => cs.map Char.ofNat
    | none => [mapWith Table.title c]

/-- The last character that is not passed over, once another one is read. -/
def lastOf (before : Option Char) (c : Char) : Option Char :=
  if Letter.isCaseIgnorable c then before else some c

/-- The first character that is not passed over. -/
def nextOf (behind : List Char) : Option Char := behind.find? fun c => !Letter.isCaseIgnorable c

/-- The lower-case form of a letter between what stands before and behind it: a sigma that ends a
word is final. -/
def lowerBetween (before : Option Char) (behind : List Char) (c : Char) : List Char :=
  if c.toNat = 931 ∧ before.any Letter.isCased = true ∧
      (nextOf behind).any Letter.isCased = false then
    [Char.ofNat 962]
  else lowerOf c

def lowerFrom (before : Option Char) : List Char → List Char
  | [] => []
  | c :: cs => lowerBetween before cs c ++ lowerFrom (lastOf before c) cs

def lower (s : String) : String := String.ofList (lowerFrom none s.toList)

/-- Title case goes by the character right before, whether it is passed over or not. -/
def titleFrom (previous before : Option Char) : List Char → List Char
  | [] => []
  | c :: cs =>
    (if previous.any Letter.isCased then lowerBetween before cs c else titleOf c) ++
      titleFrom (some c) (lastOf before c) cs

/-- Every letter after an uncased character in title case, every other letter in lower case. -/
def title (s : String) : String := String.ofList (titleFrom none none s.toList)

/-- ASCII words: a capital, then lower case. -/
def capitalize : List Char → List Char
  | [] => []
  | c :: cs => asciiUpper c :: cs.map asciiLower

end ExportLint.Text.CaseMap
