import ExportLint.Decimal.Binary64
import ExportLint.Json.Reader
import ExportLint.Time.Moment

/-!
# Reading moments

A moment is written as a date and a time, as a date alone, or as a number of seconds from the start
of 1970. Numbers too large to be seconds are milliseconds.
-/
namespace ExportLint.Moment

/-- Why a text does not start with a date. -/
inductive DateFault where
  | short
  | yearChar
  | separator
  | monthChar
  | dayChar
  | monthRange
  | dayRange
  | extra
  deriving DecidableEq, Repr

def DateFault.message : DateFault → String
  | .short => "input is too short"
  | .yearChar => "invalid character in year"
  | .separator => "invalid date separator, expected `-`"
  | .monthChar => "invalid character in month"
  | .dayChar => "invalid character in day"
  | .monthRange => "month value is outside expected range of 1-12"
  | .dayRange => "day value is outside expected range"
  | .extra => "unexpected extra characters at the end of the input"

/-- The number that exactly `n` digits write. -/
def digits? (n : Nat) (cs : List Char) : Option Nat :=
  let ds := cs.take n
  if ds.length = n ∧ ds.all Json.isDigit then some (Json.natOf ds) else none

/-- Year, month and day in front of a text, and the rest of it. -/
def readDate (cs : List Char) : Except DateFault ((Nat × Nat × Nat) × List Char) :=
  if (String.ofList cs).utf8ByteSize < 10 then .error .short
  else
    match digits? 4 cs with
    | none => .error .yearChar
    | some y =>
      if (cs.drop 4).head? ≠ some '-' then .error .separator
      else
        match digits? 2 (cs.drop 5) with
        | none => .error .monthChar
        | some m =>
          if (cs.drop 7).head? ≠ some '-' then .error .separator
          else
            match digits? 2 (cs.drop 8) with
            | none => .error .dayChar
            | some d =>
              if m < 1 ∨ 12 < m then .error .monthRange
              else if d < 1 ∨ daysInMonth y m < d then .error .dayRange
              else .ok ((y, m, d), cs.drop 10)

/-- A fraction of a second to the microsecond; further digits are dropped. -/
def readFraction (cs : List Char) : Option (Nat × List Char) :=
  let ds := cs.takeWhile Json.isDigit
  if ds.isEmpty then none
  else
    let six := (ds ++ List.replicate 6 '0').take 6
    some (Json.natOf six, cs.dropWhile Json.isDigit)

/-- Hours, minutes, seconds and microseconds. Seconds may be left out. -/
def readClock (cs : List Char) : Option ((Nat × Nat × Nat × Nat) × List Char) := do
  let h ← digits? 2 cs
  guard ((cs.drop 2).head? = some ':')
  let m ← digits? 2 (cs.drop 3)
  guard (h < 24 ∧ m < 60)
  match cs.drop 5 with
  | ':' :: rest =>
    let s ← digits? 2 rest
    guard (s < 60)
    match rest.drop 2 with
    | '.' :: frac =>
      let (us, after) ← readFraction frac
      some ((h, m, s, us), after)
    | ',' :: frac =>
      let (us, after) ← readFraction frac
      some ((h, m, s, us), after)
    | after => some ((h, m, s, 0), after)
  | after => some ((h, m, 0, 0), after)

/-- The zone at the end of a text. -/
def readZone : List Char → Option (Option Int)
  | [] => some none
  | ['Z'] | ['z'] => some (some 0)
  | sign :: rest => do
    let sign : Int ← if sign = '+' then some 1
      else if sign = '-' ∨ sign = '−' then some (-1) else none
    let h ← digits? 2 rest
    let rest := rest.drop 2
    let rest := if rest.head? = some ':' then rest.drop 1 else rest
    let m ← digits? 2 rest
    guard ((rest.drop 2).isEmpty ∧ m < 60 ∧ h < 24)
    some (some (sign * (h * 3600 + m * 60)))

def isDateMark (c : Char) : Bool := c == 'T' || c == 't' || c == ' ' || c == '_'

def readDateTime (cs : List Char) : Option Moment := do
  let ((y, mo, d), rest) ← (readDate cs).toOption
  guard (rest.head?.any isDateMark)
  let ((h, m, s, us), after) ← readClock (rest.drop 1)
  let zone ← readZone after
  some ⟨y, mo, d, h, m, s, us, zone⟩

/-- Numbers beyond this one count milliseconds. -/
def secondsLimit : Nat := 20000000000

def ofNumber (n : Int) (micro : Nat) : Moment :=
  if secondsLimit < n.natAbs then
    ofSeconds (Int.fdiv n 1000) ((Int.fmod n 1000).toNat * 1000 + micro / 1000)
  else ofSeconds n micro

/-- The moment of a fraction of seconds, to the nearest microsecond. -/
def ofReal (x : Decimal.Binary64) : Option Moment :=
  match x with
  | .finite negative m e =>
    let (num, den) := Decimal.Binary64.ratio m e
    let whole : Nat := num / den
    let micro := Decimal.roundDiv (num % den * 1000000) den
    let floor : Int := if negative then -(whole : Int) - (if num % den = 0 then 0 else 1) else whole
    some (if micro = 1000000 then ofNumber (floor + 1) 0 else ofNumber floor micro)
  | _ => none

/-- The number that a text writes: digits with a sign and a fraction at most. -/
def readNumber (cs : List Char) : Option Moment := do
  let (negative, cs) := match cs with
    | '-' :: rest => (true, rest)
    | '+' :: rest => (false, rest)
    | cs => (false, cs)
  let whole := cs.takeWhile Json.isDigit
  guard (!whole.isEmpty)
  match cs.dropWhile Json.isDigit with
  | [] =>
    let n : Int := Json.natOf whole
    some (ofNumber (if negative then -n else n) 0)
  | '.' :: frac =>
    let (us, after) ← readFraction frac
    guard after.isEmpty
    let n : Int := Json.natOf whole
    some (ofNumber (if negative then -n else n) us)
  | _ => none

/-- The moment that a text writes, or what is wrong with its date. -/
def read (s : String) : Except DateFault Moment :=
  let cs := (Text.trimString s).toList
  match readDateTime cs with
  | some t => .ok t
  | none =>
    match readNumber cs with
    | some t => .ok t
    | none =>
      match readDate cs with
      | .error e => .error e
      | .ok ((y, m, d), []) => .ok ⟨y, m, d, 0, 0, 0, 0, none⟩
      | .ok _ => .error .extra

end ExportLint.Moment
