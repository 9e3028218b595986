import ExportLint.Text.CaseMap

/-!
# Regular patterns

A pattern is a tree whose leaves test one character or one position. Every leaf carries the modes it
was written under, so that the meaning of a pattern does not depend on what stands around it.
-/
namespace ExportLint

open Text (Letter.isWord Letter.isDigit Letter.isBlank)

namespace Pattern

/-- Modes that change what a leaf accepts. -/
structure Mode where
  ignoreCase : Bool := false
  ascii : Bool := false
  multiline : Bool := false
  dotAll : Bool := false
  verbose : Bool := false
  deriving DecidableEq, Repr

inductive Category where
  | digit
  | blank
  | word
  deriving DecidableEq, Repr

/-- A member of a class in brackets. -/
inductive ClassItem where
  | char (c : Nat)
  | range (low high : Nat)
  | category (kind : Category) (negated : Bool)
  deriving DecidableEq, Repr

inductive Anchor where
  | textStart
  | textEnd
  | lineStart
  | lineEnd
  | wordEdge
  | noWordEdge
  deriving DecidableEq, Repr

/-- In which order the numbers of repetitions are tried. -/
inductive Greed where
  | most
  | least
  /-- As many as possible, and never fewer. -/
  | locked
  deriving DecidableEq, Repr

end Pattern

/-- A pattern. Groups are counted from one. -/
inductive Pattern where
  | empty
  | char (mode : Pattern.Mode) (c : Nat)
  | any (mode : Pattern.Mode)
  | cls (mode : Pattern.Mode) (negated : Bool) (items : List Pattern.ClassItem)
  | anchor (mode : Pattern.Mode) (a : Pattern.Anchor)
  | seq (p q : Pattern)
  | alt (p q : Pattern)
  | rep (low : Nat) (high : Option Nat) (greed : Pattern.Greed) (p : Pattern)
  | group (index : Nat) (p : Pattern)
  | backref (mode : Pattern.Mode) (index : Nat)
  | ahead (negated : Bool) (p : Pattern)
  /-- Looks at the text of a fixed width in front of the position. -/
  | behind (negated : Bool) (width : Nat) (p : Pattern)
  | atomic (p : Pattern)
  /-- The first branch if the group took part in the match, the second one otherwise. -/
  | choose (index : Nat) (yes no : Pattern)
  deriving DecidableEq, Repr

namespace Pattern

instance : Inhabited Pattern := ⟨.empty⟩

def Category.holds (mode : Mode) (k : Category) (c : Char) : Bool :=
  let inScope := !mode.ascii || Text.Letter.isAscii c
  inScope && match k with
    | .digit => Letter.isDigit c
    | .blank => if mode.ascii then 9 ≤ c.toNat && c.toNat ≤ 13 || c == ' ' else Letter.isBlank c
    | .word => Letter.isWord c

/-- The form of a character under which case is ignored. -/
def fold (mode : Mode) (c : Char) : Char :=
  if mode.ascii then Text.CaseMap.asciiLower c
  else if c.toNat = 304 then 'i'
  else Text.CaseMap.lowerChar c

/-- Lower-case characters that share their capital with others. -/
def capitalMates : List (List Nat) :=
  [[0x69, 0x131], [0x73, 0x17f], [0xb5, 0x3bc], [0x345, 0x3b9, 0x1fbe], [0x390, 0x1fd3],
    [0x3b0, 0x1fe3], [0x3b2, 0x3d0], [0x3b5, 0x3f5], [0x3b8, 0x3d1], [0x3ba, 0x3f0],
    [0x3c0, 0x3d6], [0x3c1, 0x3f1], [0x3c2, 0x3c3], [0x3c6, 0x3d5], [0x432, 0x1c80],
    [0x434, 0x1c81], [0x43e, 0x1c82], [0x441, 0x1c83], [0x442, 0x1c84, 0x1c85], [0x44a, 0x1c86],
    [0x463, 0x1c87], [0x1c88, 0xa64b], [0x1e61, 0x1e9b], [0xfb05, 0xfb06]]

/-- Code points that count as equal to a folded character. -/
def mates (mode : Mode) (n : Nat) : List Nat :=
  if mode.ascii then [n] else (capitalMates.find? (·.contains n)).getD [n]

def foldNat (mode : Mode) (n : Nat) : Nat := (fold mode (Char.ofNat n)).toNat

def charMatches (mode : Mode) (n : Nat) (c : Char) : Bool :=
  if mode.ignoreCase then (mates mode (foldNat mode n)).contains (fold mode c).toNat
  else c.toNat == n

/-- Whether some character of the range counts as equal to a folded one. -/
def rangeMatches (mode : Mode) (low high : Nat) (c : Char) : Bool :=
  if mode.ignoreCase then
    let n := (fold mode c).toNat
    (low ≤ n && n ≤ high) ||
      (mates mode n).any fun m =>
        (low ≤ m && m ≤ high) || (List.range (high + 1 - low)).any fun k =>
          low + k < 0x10000 && foldNat mode (low + k) == m
  else low ≤ c.toNat && c.toNat ≤ high

def ClassItem.holds (mode : Mode) (c : Char) : ClassItem → Bool
  | .char n => charMatches mode n c
  | .range low high => rangeMatches mode low high c
  | .category k negated =>
    let c := if mode.ignoreCase then fold mode c else c
    k.holds mode c != negated

def classMatches (mode : Mode) (negated : Bool) (items : List ClassItem) (c : Char) : Bool :=
  items.any (·.holds mode c) != negated

/-- The least and the greatest number of characters that a pattern takes. `widths` gives those of
the groups that are complete. -/
def width (widths : List (Nat × Nat × Option Nat)) : Pattern → Nat × Option Nat
  | .empty | .anchor _ _ | .ahead _ _ | .behind _ _ _ => (0, some 0)
  | .char _ _ | .any _ | .cls _ _ _ => (1, some 1)
  | .seq p q =>
    let (a, b) := p.width widths
    let (c, d) := q.width widths
    (a + c, do some ((← b) + (← d)))
  | .alt p q | .choose _ p q =>
    let (a, b) := p.width widths
    let (c, d) := q.width widths
    (min a c, do some (max (← b) (← d)))
  | .rep low high _ p =>
    let (a, b) := p.width widths
    (a * low, if b = some 0 then some 0 else do some ((← b) * (← high)))
  | .group _ p | .atomic p => p.width widths
  | .backref _ i => (widths.lookup i).getD (0, some 0)

end Pattern

end ExportLint
