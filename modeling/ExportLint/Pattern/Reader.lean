import ExportLint.Pattern.Basic

/-!
# Reading patterns

A pattern text is first cut into single characters and escapes of two characters. Reading gives the
pattern or the reason why the text is none. Characters are written as themselves or by number, not
by their Unicode names, and groups may be nested to any depth.
-/
namespace ExportLint.Pattern

/-- Why a text is not a pattern. -/
inductive Fault where
  | escape
  | openClass
  | range
  | nothingToRepeat
  | repeatedTwice
  | bounds
  | hugeCount
  | openGroup
  | strayParenthesis
  | extension
  | groupName
  | unknownGroup
  | groupStillOpen
  | groupTwice
  | groupInBehind
  | flags
  | flagsNotAtStart
  | mixedFlags
  | branches
  | unboundedBehind
  deriving DecidableEq, Repr

/-- A character, or a character after a backslash. -/
inductive Token where
  | char (c : Char)
  | escaped (c : Char)
  deriving DecidableEq, Repr

def tokens : List Char → Except Fault (List Token)
  | [] => .ok []
  | ['\\'] => .error .escape
  | '\\' :: c :: cs => (Token.escaped c :: ·) <$> tokens cs
  | c :: cs => (Token.char c :: ·) <$> tokens cs

/-- What reading has learned about groups so far. -/
structure Groups where
  /-- The number of groups opened. -/
  count : Nat
  names : List (String × Nat)
  /-- The widths of the groups that are closed. -/
  widths : List (Nat × Nat × Option Nat)
  /-- Inside a look behind: how many groups were open before it. -/
  behindFrom : Option Nat
  /-- Groups that a choice asks for by number. -/
  asked : List Nat
  /-- The flags that are switched on for the whole pattern. -/
  flags : List Char
  deriving Repr

/-- The state of a reader: the modes, the groups, and the text that is left. -/
structure Reader where
  mode : Mode
  groups : Groups
  rest : List Token
  deriving Repr

def isOctal (c : Char) : Bool := '0' ≤ c && c ≤ '7'

def isDecimal (c : Char) : Bool := '0' ≤ c && c ≤ '9'

def hexValue? (c : Char) : Option Nat :=
  if isDecimal c then some (c.toNat - 48)
  else if 'a' ≤ c ∧ c ≤ 'f' then some (c.toNat - 87)
  else if 'A' ≤ c ∧ c ≤ 'F' then some (c.toNat - 55)
  else none

/-- At most `n` characters that satisfy `p`. -/
def takeAtMost (p : Char → Bool) : Nat → List Token → List Char × List Token
  | 0, ts => ([], ts)
  | n + 1, .char c :: ts =>
    if p c then
      let (cs, rest) := takeAtMost p n ts
      (c :: cs, rest)
    else ([], .char c :: ts)
  | _ + 1, ts => ([], ts)

def digitsValue (base : Nat) (cs : List Char) : Nat :=
  cs.foldl (fun n c => n * base + (hexValue? c).getD 0) 0

/-- The character of a hexadecimal escape with exactly `n` digits. -/
def readHex (n : Nat) (ts : List Token) : Except Fault (Nat × List Token) :=
  let (ds, rest) := takeAtMost (fun c => (hexValue? c).isSome) n ts
  let value := digitsValue 16 ds
  if ds.length ≠ n ∨ 0x10FFFF < value then .error .escape else .ok (value, rest)

/-- Escapes for control characters. The letter `b` is one inside brackets only. -/
def control? : Char → Option Nat
  | 'a' => some 7
  | 'b' => some 8
  | 'f' => some 12
  | 'n' => some 10
  | 'r' => some 13
  | 't' => some 9
  | 'v' => some 11
  | '\\' => some 92
  | _ => none

def category? : Char → Option ClassItem
  | 'd' => some (.category .digit false)
  | 'D' => some (.category .digit true)
  | 's' => some (.category .blank false)
  | 'S' => some (.category .blank true)
  | 'w' => some (.category .word false)
  | 'W' => some (.category .word true)
  | _ => none

def anchor? : Char → Option Anchor
  | 'A' => some .textStart
  | 'Z' => some .textEnd
  | 'b' => some .wordEdge
  | 'B' => some .noWordEdge
  | _ => none

/-- The code point of an escape that is spelled with `x`, `u` or `U`, or that is no letter. -/
def readCodeEscape (c : Char) (ts : List Token) : Except Fault (Nat × List Token) :=
  match c with
  | 'x' => readHex 2 ts
  | 'u' => readHex 4 ts
  | 'U' => readHex 8 ts
  | c => if Text.Letter.isAsciiAlpha c then .error .escape else .ok (c.toNat, ts)

/-- An escape inside brackets. -/
def readClassEscape (c : Char) (ts : List Token) : Except Fault (ClassItem × List Token) :=
  match control? c, category? c with
  | some n, _ => .ok (.char n, ts)
  | none, some item => .ok (item, ts)
  | none, none =>
    if isOctal c then
      let (ds, rest) := takeAtMost isOctal 2 ts
      let value := digitsValue 8 (c :: ds)
      if 255 < value then .error .escape else .ok (.char value, rest)
    else if isDecimal c then .error .escape
    else do
      let (n, rest) ← readCodeEscape c ts
      .ok (.char n, rest)

/-- One end of a range, or a single member. -/
def readClassMember : List Token → Except Fault (ClassItem × List Token)
  | [] => .error .openClass
  | .escaped c :: ts => readClassEscape c ts
  | .char c :: ts => .ok (.char c.toNat, ts)

/-- The members of a class up to its closing bracket. A bracket in first place is a member. -/
def readClass : Nat → List ClassItem → List Token → Except Fault (List ClassItem × List Token)
  | 0, _, _ => .error .openClass
  | fuel + 1, acc, ts =>
    if ts.head? = some (.char ']') ∧ acc ≠ [] then .ok (acc.reverse, ts.tail)
    else do
      let (low, rest) ← readClassMember ts
      match rest with
      | .char '-' :: .char ']' :: after => .ok ((.char 45 :: low :: acc).reverse, after)
      | .char '-' :: after =>
        let (high, after) ← readClassMember after
        match low, high with
        | .char a, .char b =>
          if b < a then .error .range else readClass fuel (.range a b :: acc) after
        | _, _ => .error .range
      | rest => readClass fuel (low :: acc) rest

def groupClosed (g : Groups) (i : Nat) : Bool := (g.widths.lookup i).isSome

/-- A group that a look behind refers to was closed before it. -/
def checkBehind (g : Groups) (i : Nat) : Except Fault Unit :=
  match g.behindFrom with
  | none => .ok ()
  | some n =>
    if !groupClosed g i then .error .groupStillOpen
    else if n ≤ i then .error .groupInBehind
    else .ok ()

def readBackref (r : Reader) (i : Nat) (rest : List Token) : Except Fault (Pattern × Reader) :=
  if i ≤ r.groups.count then
    if groupClosed r.groups i then do
      checkBehind r.groups i
      .ok (.backref r.mode i, { r with rest })
    else .error .groupStillOpen
  else .error .unknownGroup

/-- An escape that starts with a digit: an octal number, or the number of a group. -/
def readDigitEscape (r : Reader) (c : Char) (ts : List Token) : Except Fault (Pattern × Reader) :=
  if c == '0' then
    let (ds, rest) := takeAtMost isOctal 2 ts
    .ok (.char r.mode (digitsValue 8 ds), { r with rest })
  else
    match ts with
    | .char d :: more =>
      if isDecimal d then
        match more with
        | .char e :: after =>
          if isOctal c && isOctal d && isOctal e then
            let value := digitsValue 8 [c, d, e]
            if 255 < value then .error .escape
            else .ok (.char r.mode value, { r with rest := after })
          else readBackref r (digitsValue 10 [c, d]) more
        | _ => readBackref r (digitsValue 10 [c, d]) more
      else readBackref r (digitsValue 10 [c]) ts
    | _ => readBackref r (digitsValue 10 [c]) ts

/-- An escape outside brackets. -/
def readEscape (r : Reader) (c : Char) (ts : List Token) : Except Fault (Pattern × Reader) :=
  match category? c, anchor? c, control? c with
  | some item, _, _ => .ok (.cls r.mode false [item], { r with rest := ts })
  | none, some a, _ => .ok (.anchor r.mode a, { r with rest := ts })
  | none, none, some n => .ok (.char r.mode n, { r with rest := ts })
  | none, none, none =>
    if isDecimal c then readDigitEscape r c ts
    else do
      let (n, rest) ← readCodeEscape c ts
      .ok (.char r.mode n, { r with rest })

/-- The text of tokens, escapes with their backslash. -/
def Token.text : Token → List Char
  | .char c => [c]
  | .escaped c => ['\\', c]

/-- A name up to its end mark. -/
def readName (stop : Char) (acc : List Char) : List Token → Except Fault (String × List Token)
  | [] => .error .groupName
  | t :: ts =>
    if t = .char stop then
      if acc.isEmpty then .error .groupName else .ok (String.ofList acc, ts)
    else readName stop (acc ++ t.text) ts

def isIdentifier (s : String) : Bool :=
  match s.toList with
  | [] => false
  | c :: cs => Text.Letter.isWord c && !Text.Letter.isDigit c && cs.all Text.Letter.isWord

/-- A flag that is switched on. The flag `t` changes nothing and is allowed for a whole pattern. -/
def flag? (mode : Mode) : Char → Option Mode
  | 't' => some mode
  | 'i' => some { mode with ignoreCase := true }
  | 'm' => some { mode with multiline := true }
  | 's' => some { mode with dotAll := true }
  | 'x' => some { mode with verbose := true }
  | 'a' => some { mode with ascii := true }
  | 'u' => some { mode with ascii := false }
  | _ => none

def flagOff? (mode : Mode) : Char → Option Mode
  | 'i' => some { mode with ignoreCase := false }
  | 'm' => some { mode with multiline := false }
  | 's' => some { mode with dotAll := false }
  | 'x' => some { mode with verbose := false }
  | _ => none

/-- How a run of flags ends. -/
inductive FlagEnd where
  | group
  | whole (flags : List Char)
  deriving DecidableEq, Repr

/-- Flags that are switched off, up to the colon. At least one is. -/
def readFlagsOff (mode : Mode) (on off : List Char) : List Token → Except Fault (Mode × List Token)
  | .char ':' :: ts => if off.isEmpty then .error .flags else .ok (mode, ts)
  | .char c :: ts =>
    match flagOff? mode c with
    | some mode => if on.contains c then .error .flags else readFlagsOff mode on (c :: off) ts
    | none => .error .flags
  | _ => .error .flags

/-- Flags that are switched on, and what ends them. -/
def readFlags (mode : Mode) (on : List Char) :
    List Token → Except Fault (Mode × FlagEnd × List Token)
  | .char ')' :: ts => if on.isEmpty then .error .flags else .ok (mode, .whole on, ts)
  | .char ':' :: ts =>
    if on.isEmpty || on.contains 't' then .error .flags else .ok (mode, .group, ts)
  | .char '-' :: ts => do
    if on.contains 't' then .error .flags
    let (mode, rest) ← readFlagsOff mode on [] ts
    .ok (mode, .group, rest)
  | .char c :: ts =>
    match flag? mode c with
    | some mode =>
      if (c == 'a' && on.contains 'u') || (c == 'u' && on.contains 'a') then .error .flags
      else readFlags mode (c :: on) ts
    | none => .error .flags
  | _ => .error .flags

/-- The largest count that a repetition may have is below this one. -/
def countLimit : Nat := 4294967295

/-- Bounds in braces: none if the brace stands for itself. -/
def readBounds (ts : List Token) : Except Fault (Option (Nat × Option Nat × List Token)) :=
  let (low, rest) := takeAtMost isDecimal ts.length ts
  let found : Option (List Char × List Char × List Token) :=
    match rest with
    | .char ',' :: more =>
      let (high, after) := takeAtMost isDecimal more.length more
      match after with
      | .char '}' :: after => some (low, high, after)
      | _ => none
    | .char '}' :: after => if low.isEmpty then none else some (low, low, after)
    | _ => none
  match found with
  | none => .ok none
  | some (low, high, after) =>
    let lo := digitsValue 10 low
    let hi := if high.isEmpty then none else some (digitsValue 10 high)
    if countLimit ≤ lo then .error .hugeCount
    else
      match hi with
      | none => .ok (some (lo, none, after))
      | some h =>
        if countLimit ≤ h then .error .hugeCount
        else if h < lo then .error .bounds
        else .ok (some (lo, some h, after))

/-- What a repetition may follow. -/
inductive Last where
  | nothing
  | anchor
  | repeated
  | item
  deriving DecidableEq, Repr

/-- A sequence that is being read: the items before the last one, the last one, and its kind. -/
structure Partial where
  before : Pattern
  item : Pattern
  last : Last
  deriving Repr

def Partial.start : Partial := ⟨.empty, .empty, .nothing⟩

def Partial.push (s : Partial) (p : Pattern) (last : Last) : Partial :=
  match s.last with
  | .nothing => ⟨.empty, p, last⟩
  | _ => ⟨.seq s.before s.item, p, last⟩

def Partial.pattern (s : Partial) : Pattern := .seq s.before s.item

/-- Repeat the last item. -/
def Partial.repeatLast (s : Partial) (low : Nat) (high : Option Nat) (r : Reader)
    (ts : List Token) : Except Fault (Partial × Reader) :=
  match s.last with
  | .nothing | .anchor => .error .nothingToRepeat
  | .repeated => .error .repeatedTwice
  | .item =>
    let (greed, rest) :=
      match ts with
      | .char '?' :: rest => (Greed.least, rest)
      | .char '+' :: rest => (Greed.locked, rest)
      | rest => (Greed.most, rest)
    .ok (⟨s.before, .rep low high greed s.item, .repeated⟩, { r with rest })

/-- Skip to the end of a line. -/
def skipLine (ts : List Token) : List Token := (ts.dropWhile (· ≠ .char '\n')).drop 1

def isVerboseBlank (c : Char) : Bool := c == ' ' || (9 ≤ c.toNat && c.toNat ≤ 13)

def openGroup (g : Groups) (name : Option String) : Except Fault (Nat × Groups) :=
  let i := g.count + 1
  match name with
  | none => .ok (i, { g with count := i })
  | some n =>
    if (g.names.lookup n).isSome then .error .groupTwice
    else .ok (i, { g with count := i, names := (n, i) :: g.names })

/-- What the opening of a group announces. -/
inductive Opening where
  | capture (name : Option String)
  | plain (mode : Mode)
  | atomic
  | ahead (negated : Bool)
  | behind (negated : Bool)
  | backref (index : Nat)
  | choose (index : Nat)
  | comment
  | wholeFlags (mode : Mode) (flags : List Char)
  deriving Repr

def readCondition (g : Groups) (ts : List Token) :
    Except Fault (Nat × Groups × List Token) := do
  let (name, rest) ← readName ')' [] ts
  let (i, g) ←
    if isIdentifier name then
      match g.names.lookup name with
      | some i => .ok (i, g)
      | none => .error .unknownGroup
    else if name.toList.all isDecimal then
      let i := digitsValue 10 name.toList
      if i = 0 then .error .groupName else .ok (i, { g with asked := i :: g.asked })
    else .error .groupName
  checkBehind g i
  .ok (i, g, rest)

/-- What follows an opening parenthesis. -/
def readOpening (r : Reader) : List Token → Except Fault (Opening × Groups × List Token)
  | .char '?' :: .char 'P' :: .char '<' :: ts => do
    let (name, rest) ← readName '>' [] ts
    if isIdentifier name then .ok (.capture (some name), r.groups, rest) else .error .groupName
  | .char '?' :: .char 'P' :: .char '=' :: ts => do
    let (name, rest) ← readName ')' [] ts
    if !isIdentifier name then .error .groupName
    else
      match r.groups.names.lookup name with
      | none => .error .unknownGroup
      | some i => .ok (.backref i, r.groups, rest)
  | .char '?' :: .char ':' :: ts => .ok (.plain r.mode, r.groups, ts)
  | .char '?' :: .char '#' :: ts =>
    match ts.dropWhile (· ≠ .char ')') with
    | [] => .error .openGroup
    | _ :: rest => .ok (.comment, r.groups, rest)
  | .char '?' :: .char '=' :: ts => .ok (.ahead false, r.groups, ts)
  | .char '?' :: .char '!' :: ts => .ok (.ahead true, r.groups, ts)
  | .char '?' :: .char '<' :: .char '=' :: ts => .ok (.behind false, r.groups, ts)
  | .char '?' :: .char '<' :: .char '!' :: ts => .ok (.behind true, r.groups, ts)
  | .char '?' :: .char '>' :: ts => .ok (.atomic, r.groups, ts)
  | .char '?' :: .char '(' :: ts => do
    let (i, g, rest) ← readCondition r.groups ts
    .ok (.choose i, g, rest)
  | .char '?' :: .char c :: ts =>
    if (flag? r.mode c).isSome || c == '-' then do
      let (mode, stop, rest) ← readFlags r.mode [] (.char c :: ts)
      match stop with
      | .whole flags => .ok (.wholeFlags mode flags, r.groups, rest)
      | .group => .ok (.plain mode, r.groups, rest)
    else .error .extension
  | .char '?' :: _ => .error .extension
  | ts => .ok (.capture none, r.groups, ts)

def closeParen (r : Reader) : Except Fault Reader :=
  match r.rest with
  | .char ')' :: rest => .ok { r with rest }
  | _ => .error .openGroup

/-- A look behind of a pattern, which must have one width. -/
def behindOf (negated : Bool) (widths : List (Nat × Nat × Option Nat)) (p : Pattern) :
    Except Fault Pattern :=
  let (low, high) := p.width widths
  if high = some low then .ok (.behind negated low p) else .error .unboundedBehind

mutual

/-- Alternatives. Only the first item of a whole pattern may set modes for all that follows. -/
def readAlternatives : Nat → Bool → Reader → Except Fault (Pattern × Reader)
  | 0, _, _ => .error .openGroup
  | fuel + 1, top, r => do
    let (p, r) ← readSequence fuel top .start r
    readMoreAlternatives fuel p r

def readMoreAlternatives : Nat → Pattern → Reader → Except Fault (Pattern × Reader)
  | 0, _, _ => .error .openGroup
  | fuel + 1, p, r =>
    match r.rest with
    | .char '|' :: rest => do
      let (q, r) ← readSequence fuel false .start { r with rest }
      let (q, r) ← readMoreAlternatives fuel q r
      .ok (.alt p q, r)
    | _ => .ok (p, r)

/-- A sequence up to a bar, a closing parenthesis or the end. -/
def readSequence : Nat → Bool → Partial → Reader → Except Fault (Pattern × Reader)
  | 0, _, _, _ => .error .openGroup
  | fuel + 1, first, s, r =>
    match r.rest with
    | [] | .char '|' :: _ | .char ')' :: _ => .ok (s.pattern, r)
    | .escaped c :: ts => do
      let (p, r) ← readEscape r c ts
      let last := match p with
        | .anchor _ _ => Last.anchor
        | _ => Last.item
      readSequence fuel first (s.push p last) r
    | .char c :: ts =>
      if r.mode.verbose && isVerboseBlank c then readSequence fuel first s { r with rest := ts }
      else if r.mode.verbose && c == '#' then
        readSequence fuel first s { r with rest := skipLine ts }
      else
        match c with
        | '[' => do
          let (negated, ts) := match ts with
            | .char '^' :: ts => (true, ts)
            | ts => (false, ts)
          let (items, rest) ← readClass (ts.length + 1) [] ts
          readSequence fuel first (s.push (.cls r.mode negated items) .item) { r with rest }
        | '.' => readSequence fuel first (s.push (.any r.mode) .item) { r with rest := ts }
        | '^' =>
          readSequence fuel first (s.push (.anchor r.mode .lineStart) .anchor) { r with rest := ts }
        | '$' =>
          readSequence fuel first (s.push (.anchor r.mode .lineEnd) .anchor) { r with rest := ts }
        | '?' => do
          let (s, r) ← s.repeatLast 0 (some 1) r ts
          readSequence fuel first s r
        | '*' => do
          let (s, r) ← s.repeatLast 0 none r ts
          readSequence fuel first s r
        | '+' => do
          let (s, r) ← s.repeatLast 1 none r ts
          readSequence fuel first s r
        | '{' => do
          match ← readBounds ts with
          | none => readSequence fuel first (s.push (.char r.mode 123) .item) { r with rest := ts }
          | some (low, high, rest) =>
            let (s, r) ← s.repeatLast low high r rest
            readSequence fuel first s r
        | '(' => do
          let (opening, groups, rest) ← readOpening r ts
          let inner := { r with groups, rest }
          match opening with
          | .comment => readSequence fuel first s inner
          | .wholeFlags mode flags =>
            if first && s.last = .nothing then
              let groups := { groups with flags := flags ++ groups.flags }
              readSequence fuel first s { inner with mode, groups }
            else .error .flagsNotAtStart
          | opening =>
            let (p, r) ← readGroup fuel opening inner
            readSequence fuel first (s.push p .item) r
        | c => readSequence fuel first (s.push (.char r.mode c.toNat) .item) { r with rest := ts }

/-- The contents of a group and its closing parenthesis. -/
def readGroup : Nat → Opening → Reader → Except Fault (Pattern × Reader)
  | 0, _, _ => .error .openGroup
  | fuel + 1, opening, r => do
    match opening with
    | .backref i => readBackref r i r.rest
    | .capture name =>
      let (i, groups) ← openGroup r.groups name
      let (p, after) ← readAlternatives fuel false { r with groups }
      let after ← closeParen after
      let groups := after.groups
      let widths := (i, p.width groups.widths) :: groups.widths
      .ok (.group i p, { after with mode := r.mode, groups := { groups with widths } })
    | .plain mode =>
      let (p, after) ← readAlternatives fuel false { r with mode }
      let after ← closeParen after
      .ok (p, { after with mode := r.mode })
    | .atomic =>
      let (p, after) ← readAlternatives fuel false r
      let after ← closeParen after
      .ok (.atomic p, { after with mode := r.mode })
    | .ahead negated =>
      let (p, after) ← readAlternatives fuel false r
      let after ← closeParen after
      .ok (.ahead negated p, { after with mode := r.mode })
    | .behind negated =>
      let outer := r.groups.behindFrom
      let groups := { r.groups with behindFrom := some (outer.getD (r.groups.count + 1)) }
      let (p, after) ← readAlternatives fuel false { r with groups }
      let after ← closeParen after
      let p ← behindOf negated after.groups.widths p
      let groups := { after.groups with behindFrom := outer }
      .ok (p, { after with mode := r.mode, groups })
    | .choose i =>
      let (yes, r) ← readSequence fuel false .start r
      match r.rest with
      | .char '|' :: rest =>
        let (no, r) ← readSequence fuel false .start { r with rest }
        if r.rest.head? = some (.char '|') then .error .branches
        let r ← closeParen r
        .ok (.choose i yes no, r)
      | _ =>
        let r ← closeParen r
        .ok (.choose i yes .empty, r)
    | .comment | .wholeFlags .. => .ok (.empty, r)

end

/-- The pattern that a text writes. -/
def read (text : String) : Except Fault Pattern := do
  let ts ← tokens text.toList
  let start : Reader := ⟨{}, ⟨0, [], [], none, [], []⟩, ts⟩
  let (p, r) ← readAlternatives (4 * ts.length + 8) true start
  if r.groups.flags.contains 'a' && r.groups.flags.contains 'u' then .error .mixedFlags
  else if !r.rest.isEmpty then .error .strayParenthesis
  else if r.groups.asked.any (r.groups.count < ·) then .error .unknownGroup
  else .ok p

end ExportLint.Pattern
