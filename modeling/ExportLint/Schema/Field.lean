import ExportLint.Json.Value
import ExportLint.Named
import ExportLint.Schema.Validated
import ExportLint.Text.CaseMap
import ExportLint.Text.Lines
import ExportLint.Time.Reader

/-!
# Reading fields

Readers for the kinds of field that records have. They accept a value in another form if it has only
one meaning: a number in a text, a boolean as 0 or 1. A field may be given under its camel-case key
or with underscores; the camel-case key wins.
-/
namespace ExportLint.Schema

open Decimal (Binary64)

/-- A reader of values of one kind. -/
abbrev Reader (α : Type) := Json → Validated α

def string : Reader String
  | .str s => .valid s
  | _ => .fail "Input should be a valid string"

def trueWords : List String := ["1", "on", "t", "true", "y", "yes"]

def falseWords : List String := ["0", "off", "f", "false", "n", "no"]

def asciiLower (s : String) : String := String.ofList (s.toList.map Text.CaseMap.asciiLower)

def boolOfInt (i : Int) : Validated Bool :=
  if i = 1 then .valid true
  else if i = 0 then .valid false
  else .fail "Input should be a valid boolean, unable to interpret input"

/-- The whole number that a number with a fraction equals, if 64 bits with a sign can hold it. -/
def smallInt? (x : Binary64) : Option Int := x.toInt?.filter fun i => i.natAbs < Nat.pow 2 63

def boolean : Reader Bool
  | .bool b => .valid b
  | .int i => boolOfInt i
  | .real x =>
    match smallInt? x with
    | some i => boolOfInt i
    | none => .fail "Input should be a valid boolean"
  | .str s =>
    if trueWords.contains (asciiLower s) then .valid true
    else if falseWords.contains (asciiLower s) then .valid false
    else .fail "Input should be a valid boolean, unable to interpret input"
  | _ => .fail "Input should be a valid boolean"

/-- Digits with single underscores between them. -/
def groupedDigits? (cs : List Char) : Option Nat :=
  let groups := Text.splitWhere (· == '_') cs
  if groups.all fun g => !g.isEmpty && g.all Json.isDigit then some (Json.natOf groups.flatten)
  else none

/-- The whole number that a text writes, with a sign and a fraction of zeros at most. -/
def intOfText? (s : String) : Option Int := do
  let cs := Text.trim s.toList
  let (negative, cs) := match cs with
    | '-' :: rest => (true, rest)
    | '+' :: rest => (false, rest)
    | cs => (false, cs)
  let whole := cs.takeWhile (· ≠ '.')
  guard (((cs.dropWhile (· ≠ '.')).drop 1).all (· == '0'))
  let n ← groupedDigits? whole
  some (if negative then -(n : Int) else n)

def integer : Reader Int
  | .int i => .valid i
  | .bool b => .valid (if b then 1 else 0)
  | .real x =>
    match x, x.toInt? with
    | .finite _ _ _, some _ =>
      match smallInt? x with
      | some i => .valid i
      | none => .fail "Unable to parse input string as an integer, exceeded maximum size"
    | .finite _ _ _, none =>
      .fail "Input should be a valid integer, got a number with a fractional part"
    | _, _ => .fail "Input should be a finite number"
  | .str s =>
    match intOfText? s with
    | some i => .valid i
    | none => .fail "Input should be a valid integer, unable to parse string as an integer"
  | _ => .fail "Input should be a valid integer"

/-- The number that a text writes, with a sign, a fraction and an exponent at most. -/
def realOfText? (s : String) : Option Binary64 :=
  let cs := Text.trim s.toList
  let (negative, cs) := match cs with
    | '-' :: rest => (true, rest)
    | '+' :: rest => (false, rest)
    | cs => (false, cs)
  let word := asciiLower (String.ofList cs)
  if word = "inf" ∨ word = "infinity" then some (.infinite negative)
  else if word = "nan" then some .nan
  else
    let whole := cs.takeWhile Json.isDigit
    let rest := cs.dropWhile Json.isDigit
    let (point, frac, rest) := match rest with
      | '.' :: more => (true, more.takeWhile Json.isDigit, more.dropWhile Json.isDigit)
      | rest => (false, [], rest)
    if whole.isEmpty && (frac.isEmpty || !point) then none
    else
      let digits := Json.natOf (whole ++ frac)
      match rest with
      | [] => some (Binary64.ofDecimal negative digits (-frac.length))
      | rest =>
        match Json.readExponent rest with
        | some (e, []) => some (Binary64.ofDecimal negative digits (e - frac.length))
        | _ => none

def real : Reader Binary64
  | .real x => .valid x
  | .int i => .valid (Binary64.ofRatio (i < 0) i.natAbs 1)
  | .bool b => .valid (Binary64.ofNat (if b then 1 else 0))
  | .str s =>
    match realOfText? s with
    | some x => .valid x
    | none => .fail "Input should be a valid number, unable to parse string as a number"
  | _ => .fail "Input should be a valid number"

def moment : Reader Moment
  | .str s =>
    match Moment.read s with
    | .ok t => .valid t
    | .error e => .fail ("Input should be a valid datetime or date, " ++ e.message)
  | .int i => .valid (Moment.ofNumber i 0)
  | .real x =>
    match Moment.ofReal x with
    | some t => .valid t
    | none => .fail "Input should be a valid datetime"
  | _ => .fail "Input should be a valid datetime"

/-- Names in single marks, with a conjunction before the last. -/
def alternatives : List String → String
  | [] => ""
  | [a] => "'" ++ a ++ "'"
  | [a, b] => "'" ++ a ++ "' or '" ++ b ++ "'"
  | a :: rest => "'" ++ a ++ "', " ++ alternatives rest

/-- One of the named alternatives. -/
def named {α : Type} [Named α] : Reader α
  | .str s =>
    match Named.ofName? s with
    | some a => .valid a
    | none => .fail ("Input should be " ++ alternatives ((Named.all : List α).map Named.name))
  | _ => .fail ("Input should be " ++ alternatives ((Named.all : List α).map Named.name))

/-- Nothing for null, and otherwise what the reader gives. -/
def optional {α : Type} (read : Reader α) : Reader (Option α)
  | .null => .valid none
  | v => some <$> read v

def itemsFrom {α : Type} (read : Reader α) (i : Nat) : List Json → Validated (List α)
  | [] => .valid []
  | v :: vs => List.cons <$> (read v).under (toString i) <*> itemsFrom read (i + 1) vs

def list {α : Type} (read : Reader α) : Reader (List α)
  | .arr vs => itemsFrom read 0 vs
  | _ => .fail "Input should be a valid list"

def entries {α : Type} (read : Reader α) : List (String × Json) → Validated (List (String × α))
  | [] => .valid []
  | (k, v) :: ms =>
    List.cons <$> ((fun a => (k, a)) <$> (read v).under k) <*> entries read ms

/-- An object with values of one kind. -/
def dictionary {α : Type} (read : Reader α) : Reader (List (String × α))
  | .obj ms => entries read ms
  | _ => .fail "Input should be a valid dictionary"

/-- An object with any values. -/
def free : Reader Json.Members
  | .obj ms => .valid ms
  | _ => .fail "Input should be a valid dictionary"

/-- The members of a record of a kind. -/
def record {α : Type} (kind : String) (read : Json.Members → Validated α) : Reader α
  | .obj ms => read ms
  | _ => .fail ("Input should be a valid dictionary or instance of " ++ kind)

/-- A camel-case key with underscores between its words. -/
def underscored (key : String) : String :=
  String.ofList (key.toList.flatMap fun c =>
    if Text.Letter.isAsciiUpper c then ['_', Text.CaseMap.asciiLower c] else [c])

/-- The key under which a field is given, and its value. -/
def lookup? (ms : Json.Members) (key : String) : Option (String × Json) :=
  match ms.get? key with
  | some v => some (key, v)
  | none => (ms.get? (underscored key)).map fun v => (underscored key, v)

/-- A field that must be there. -/
def field {α : Type} (ms : Json.Members) (key : String) (read : Reader α) : Validated α :=
  match lookup? ms key with
  | some (k, v) => (read v).under k
  | none => .invalid [⟨[key], "Field required"⟩]

/-- A field that has a value of its own when it is not there. -/
def fieldOr {α : Type} (ms : Json.Members) (key : String) (default : α) (read : Reader α) :
    Validated α :=
  match lookup? ms key with
  | some (k, v) => (read v).under k
  | none => .valid default

end ExportLint.Schema
