import ExportLint.Text.Letter

/-!
# Lines and trimming

Splitting at line feeds and putting lines together again are inverse. Universal newlines turn a
carriage return, alone or before a line feed, into one line feed.
-/
namespace ExportLint.Text

/-- Pieces between the characters that satisfy `p`. There is always one more piece than there are
such characters. -/
def splitWhere (p : Char → Bool) : List Char → List (List Char)
  | [] => [[]]
  | c :: cs =>
    if p c then [] :: splitWhere p cs
    else
      match splitWhere p cs with
      | [] => [[c]]
      | piece :: rest => (c :: piece) :: rest

/-- The pieces put together again with `c` between them. -/
def joinBy (c : Char) : List (List Char) → List Char
  | [] => []
  | [piece] => piece
  | piece :: rest => piece ++ c :: joinBy c rest

def splitAtChar (c : Char) (s : String) : List String :=
  (splitWhere (· == c) s.toList).map String.ofList

/-- A text as its lines: the pieces between line feeds. -/
def lines (s : String) : List String := splitAtChar '\n' s

def unlines (ls : List String) : String := String.intercalate "\n" ls

theorem splitWhere_ne_nil (p : Char → Bool) (cs : List Char) : splitWhere p cs ≠ [] := by
  cases cs with
  | nil => simp [splitWhere]
  | cons c cs =>
    simp only [splitWhere]
    split
    · simp
    · split <;> simp

theorem joinBy_splitWhere (c : Char) (cs : List Char) :
    joinBy c (splitWhere (· == c) cs) = cs := by
  induction cs with
  | nil => rfl
  | cons d ds ih =>
    cases hs : splitWhere (· == c) ds with
    | nil => exact absurd hs (splitWhere_ne_nil _ _)
    | cons piece rest =>
      rw [hs] at ih
      by_cases h : d = c
      · subst h
        simp only [splitWhere, beq_self_eq_true, if_true, hs]
        simp [joinBy, ih]
      · simp only [splitWhere, beq_iff_eq, h, if_false, hs]
        cases rest with
        | nil => simp_all [joinBy]
        | cons next rest => simp_all [joinBy]

/-- Line ends as line feeds: a carriage return ends a line, and one before a line feed joins it. -/
def universalNewlines : List Char → List Char
  | '\r' :: '\n' :: cs => '\n' :: universalNewlines cs
  | '\r' :: cs => '\n' :: universalNewlines cs
  | c :: cs => c :: universalNewlines cs
  | [] => []

/-- Characters that end a line in running text. -/
def isLineBoundary (c : Char) : Bool :=
  [10, 11, 12, 13, 28, 29, 30, 0x85, 0x2028, 0x2029].contains c.toNat

/-- The lines of running text, their boundaries dropped. A carriage return before a line feed is one
boundary with it, and a boundary at the end opens no further line. -/
def textLines (cs : List Char) : List (List Char) :=
  go [] cs
where
  go (line : List Char) : List Char → List (List Char)
    | [] => if line.isEmpty then [] else [line.reverse]
    | '\r' :: '\n' :: cs => line.reverse :: go [] cs
    | c :: cs => if isLineBoundary c then line.reverse :: go [] cs else go (c :: line) cs

def trimLeft (cs : List Char) : List Char := cs.dropWhile Letter.isBlank

def trimRight (cs : List Char) : List Char := (cs.reverse.dropWhile Letter.isBlank).reverse

def trim (cs : List Char) : List Char := trimRight (trimLeft cs)

def trimString (s : String) : String := String.ofList (trim s.toList)

/-- Drop every `c` from the end. -/
def dropTrailing (c : Char) (cs : List Char) : List Char :=
  (cs.reverse.dropWhile (· == c)).reverse

def startsWith (lead cs : List Char) : Bool := lead.isPrefixOf cs

/-- A number at least `width` digits wide, with leading zeros. -/
def padZero (width n : Nat) : String :=
  let digits := toString n
  String.ofList (List.replicate (width - digits.length) '0') ++ digits

/-- Text at least `width` characters wide, with blanks on the right. -/
def padRight (width : Nat) (s : String) : String :=
  s ++ String.ofList (List.replicate (width - s.length) ' ')

end ExportLint.Text
