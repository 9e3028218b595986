import ExportLint.Pattern.Reader

/-!
# Searching for a pattern

Matching explores the choices of a pattern in order and stops at the first one under which the rest
of the pattern matches too. Repetitions end when a round takes no character, so that matching always
ends.
-/
namespace ExportLint.Pattern

/-- A position in a text: the characters before it, nearest first, those after it, and the texts
that groups took. -/
structure Position where
  before : List Char
  after : List Char
  captures : List (Nat × List Char)
  deriving Repr

namespace Position

def advance (s : Position) : Option (Char × Position) :=
  match s.after with
  | [] => none
  | c :: cs => some (c, { s with before := c :: s.before, after := cs })

/-- Move back over `n` characters. -/
def back : Nat → Position → Option Position
  | 0, s => some s
  | n + 1, s =>
    match s.before with
    | [] => none
    | c :: cs => back n { s with before := cs, after := c :: s.after }

/-- Move over the characters of a text that was taken before. -/
def follow (mode : Mode) : List Char → Position → Option Position
  | [], s => some s
  | c :: cs, s =>
    match s.advance with
    | none => none
    | some (d, t) =>
      let same := if mode.ignoreCase then fold mode c == fold mode d else c == d
      if same then follow mode cs t else none

/-- The text between an earlier position and this one. -/
def since (start s : Position) : List Char :=
  start.after.take (s.before.length - start.before.length)

def isWordAt (mode : Mode) (c : Option Char) : Bool := c.any (Category.word.holds mode)

def satisfies (s : Position) (mode : Mode) : Anchor → Bool
  | .textStart => s.before.isEmpty
  | .textEnd => s.after.isEmpty
  | .lineStart => s.before.isEmpty || (mode.multiline && s.before.head? == some '\n')
  | .lineEnd =>
    s.after.isEmpty || s.after == ['\n'] || (mode.multiline && s.after.head? == some '\n')
  | .wordEdge => isWordAt mode s.before.head? != isWordAt mode s.after.head?
  | .noWordEdge =>
    !(s.before.isEmpty && s.after.isEmpty) &&
      isWordAt mode s.before.head? == isWordAt mode s.after.head?

end Position

abbrev Next := Position → Option Position

abbrev Matcher := Next → Position → Option Position

/-- One character that satisfies a test. -/
def step (p : Char → Bool) : Matcher := fun k s =>
  match s.advance with
  | some (c, t) => if p c then k t else none
  | none => none

/-- Rounds that come before there is a choice. -/
def times (body : Matcher) : Nat → Matcher
  | 0 => fun k s => k s
  | n + 1 => fun k s => body (times body n k) s

/-- At most `fuel` further rounds. A round that took nothing is the last one. -/
def rounds (body : Matcher) (greedy : Bool) : Nat → Option Nat → Option Nat → Matcher
  | 0, _, _ => fun k s => k s
  | fuel + 1, left, last => fun k s =>
    let again : Option Position :=
      if left = some 0 ∨ last = some s.after.length then none
      else body (rounds body greedy fuel (left.map (· - 1)) (some s.after.length) k) s
    if greedy then again.or (k s) else (k s).or again

/-- Rounds that are never given back. -/
def lockedRounds (body : Matcher) : Nat → Option Nat → Option Nat → Position → Position
  | 0, _, _, s => s
  | fuel + 1, left, last, s =>
    if left = some 0 ∨ last = some s.after.length then s
    else
      match body some s with
      | none => s
      | some t => lockedRounds body fuel (left.map (· - 1)) (some s.after.length) t

def lockedTimes (body : Matcher) : Nat → Position → Option Position
  | 0, s => some s
  | n + 1, s => (body some s).bind (lockedTimes body n)

/-- Match a pattern from a position on; what comes after it is the continuation. -/
def run : Pattern → Matcher
  | .empty => fun k s => k s
  | .char mode c => step (charMatches mode c)
  | .any mode => step fun c => mode.dotAll || c != '\n'
  | .cls mode negated items => step (classMatches mode negated items)
  | .anchor mode a => fun k s => if s.satisfies mode a then k s else none
  | .seq p q => fun k s => run p (run q k) s
  | .alt p q => fun k s => (run p k s).or (run q k s)
  | .rep low high greed p => fun k s =>
    let left := high.map (· - low)
    let fuel := 2 * s.after.length + 2
    match greed with
    | .most => times (run p) low (rounds (run p) true fuel left none k) s
    | .least => times (run p) low (rounds (run p) false fuel left none k) s
    | .locked => (lockedTimes (run p) low s).bind fun t => k (lockedRounds (run p) fuel left none t)
  | .group i p => fun k s =>
    run p (fun t => k { t with captures := (i, s.since t) :: t.captures }) s
  | .backref mode i => fun k s =>
    (s.captures.lookup i).bind fun text => (s.follow mode text).bind k
  | .ahead negated p => fun k s =>
    match run p some s with
    | some t => if negated then none else k { s with captures := t.captures }
    | none => if negated then k s else none
  | .behind negated width p => fun k s =>
    match (s.back width).bind (run p some) with
    | some t => if negated then none else k { s with captures := t.captures }
    | none => if negated then k s else none
  | .atomic p => fun k s => (run p some s).bind k
  | .choose i yes no => fun k s =>
    if (s.captures.lookup i).isSome then run yes k s else run no k s

/-- A match that starts at some position from here on. -/
def searchFrom (p : Pattern) : List Char → List Char → Option Position
  | before, [] => run p some ⟨before, [], []⟩
  | before, c :: cs =>
    (run p some ⟨before, c :: cs, []⟩).or (searchFrom p (c :: before) cs)

/-- The pattern matches somewhere in the text. -/
def occursIn (p : Pattern) (text : String) : Bool := (searchFrom p [] text.toList).isSome

end ExportLint.Pattern
