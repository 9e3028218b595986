import ExportLint.Json.Value

/-!
# Reading JSON

The reader accepts the standard grammar and the three spellings of numbers that are none. An error
names its cause and the place it was found at, which is a suffix of the text. Integers are read up
to a number of digits.
-/
namespace ExportLint.Json

open Decimal (Binary64)

/-- Why a text is not JSON, or holds an integer that is not read. -/
inductive ReadFault where
  | byteOrderMark
  | value
  | propertyName
  | colon
  | comma
  | extraData
  | unterminatedString
  | controlCharacter
  | escape
  | unicodeEscape
  | longInteger (digits : Nat)
  deriving DecidableEq, Repr

def ReadFault.message : ReadFault → String
  | .byteOrderMark => "Unexpected UTF-8 BOM (decode using utf-8-sig)"
  | .value => "Expecting value"
  | .propertyName => "Expecting property name enclosed in double quotes"
  | .colon => "Expecting ':' delimiter"
  | .comma => "Expecting ',' delimiter"
  | .extraData => "Extra data"
  | .unterminatedString => "Unterminated string starting at"
  | .controlCharacter => "Invalid control character at"
  | .escape => "Invalid \\escape"
  | .unicodeEscape => "Invalid \\uXXXX escape"
  | .longInteger n => "Exceeds the limit (" ++ toString digitLimit ++
    " digits) for integer string conversion: value has " ++ toString n ++
    " digits; use sys.set_int_max_str_digits() to increase the limit"

/-- A fault and the line it is on, counted from one. -/
structure ReadError where
  fault : ReadFault
  line : Nat
  deriving DecidableEq, Repr

/-- A fault at a place: the text that is left there. -/
abbrev FaultAt := ReadFault × List Char

abbrev Reading (α : Type) := Except FaultAt (α × List Char)

def isSpace (c : Char) : Bool := c == ' ' || c == '\t' || c == '\n' || c == '\r'

def skipSpace (cs : List Char) : List Char := cs.dropWhile isSpace

def hexValue? (c : Char) : Option Nat :=
  if '0' ≤ c ∧ c ≤ '9' then some (c.toNat - 48)
  else if 'a' ≤ c ∧ c ≤ 'f' then some (c.toNat - 87)
  else if 'A' ≤ c ∧ c ≤ 'F' then some (c.toNat - 55)
  else none

/-- The number that four hexadecimal digits write. -/
def hexQuad? : List Char → Option (Nat × List Char)
  | a :: b :: c :: d :: rest => do
    let a ← hexValue? a
    let b ← hexValue? b
    let c ← hexValue? c
    let d ← hexValue? d
    some (((a * 16 + b) * 16 + c) * 16 + d, rest)
  | _ => none

def isHighSurrogate (n : Nat) : Bool := 0xD800 ≤ n && n < 0xDC00

def isLowSurrogate (n : Nat) : Bool := 0xDC00 ≤ n && n < 0xE000

/-- The character of a code unit. A unit that pairs with none is the replacement character. -/
def unitChar (n : Nat) : Char :=
  if isHighSurrogate n || isLowSurrogate n then Char.ofNat 0xFFFD else Char.ofNat n

/-- What a short escape stands for. -/
def shortEscape? : Char → Option Char
  | '"' => some '"'
  | '\\' => some '\\'
  | '/' => some '/'
  | 'b' => some '\x08'
  | 'f' => some '\x0c'
  | 'n' => some '\n'
  | 'r' => some '\r'
  | 't' => some '\t'
  | _ => none

/-- The characters of an escape after its `\u`, which is where a fault is reported. -/
def readUnicodeEscape (start digits : List Char) : Reading Char :=
  match hexQuad? digits with
  | none => .error (.unicodeEscape, start)
  | some (_, []) => .error (.unicodeEscape, start)
  | some (hi, rest) =>
    if isHighSurrogate hi && 6 < rest.length then
      match rest with
      | '\\' :: 'u' :: more =>
        match hexQuad? more with
        | none => .error (.unicodeEscape, rest.drop 1)
        | some (lo, after) =>
          if isLowSurrogate lo then
            .ok (Char.ofNat (0x10000 + (hi - 0xD800) * 1024 + (lo - 0xDC00)), after)
          else .ok (unitChar hi, rest)
      | _ => .ok (unitChar hi, rest)
    else .ok (unitChar hi, rest)

/-- The rest of a string after its opening quote. `start` is the place of that quote. -/
def readString (start : List Char) : Nat → List Char → List Char → Reading String
  | 0, _, _ => .error (.unterminatedString, start)
  | fuel + 1, acc, cs =>
    match cs with
    | [] => .error (.unterminatedString, start)
    | '"' :: rest => .ok (String.ofList acc.reverse, rest)
    | '\\' :: rest =>
      match rest with
      | [] => .error (.unterminatedString, start)
      | 'u' :: digits =>
        match readUnicodeEscape rest digits with
        | .error e => .error e
        | .ok (c, after) => readString start fuel (c :: acc) after
      | c :: after =>
        match shortEscape? c with
        | none => .error (.escape, cs)
        | some d => readString start fuel (d :: acc) after
    | c :: rest =>
      if c.toNat < 32 then .error (.controlCharacter, cs)
      else readString start fuel (c :: acc) rest

def isDigit (c : Char) : Bool := '0' ≤ c && c ≤ '9'

def natOf (ds : List Char) : Nat := ds.foldl (fun n d => n * 10 + (d.toNat - 48)) 0

/-- A fraction: a point with a digit after it. -/
def readFraction : List Char → List Char × List Char
  | '.' :: d :: rest =>
    if isDigit d then ((d :: rest).takeWhile isDigit, (d :: rest).dropWhile isDigit)
    else ([], '.' :: d :: rest)
  | cs => ([], cs)

/-- An exponent: the mark, a sign if any, and digits. -/
def readExponent (cs : List Char) : Option (Int × List Char) :=
  let signed (negative : Bool) (ds : List Char) : Option (Int × List Char) :=
    if (ds.takeWhile isDigit).isEmpty then none
    else
      let n : Int := natOf (ds.takeWhile isDigit)
      some (if negative then -n else n, ds.dropWhile isDigit)
  match cs with
  | c :: rest =>
    if c == 'e' || c == 'E' then
      match rest with
      | '-' :: ds => signed true ds
      | '+' :: ds => signed false ds
      | ds => signed false ds
    else none
  | [] => none

/-- A number from its first digit on. -/
def readUnsigned (negative : Bool) (whole rest : List Char) : Reading Json :=
  let (frac, rest) := readFraction rest
  match readExponent rest with
  | some (e, after) =>
    .ok (.real (Binary64.ofDecimal negative (natOf (whole ++ frac)) (e - frac.length)), after)
  | none =>
    if !frac.isEmpty then
      .ok (.real (Binary64.ofDecimal negative (natOf (whole ++ frac)) (-frac.length)), rest)
    else if digitLimit < whole.length then .error (.longInteger whole.length, whole ++ rest)
    else .ok (.int (if negative then -(natOf whole : Int) else natOf whole), rest)

/-- A number behind its sign. `start` is the place of the sign. -/
def readSigned (negative : Bool) (start cs : List Char) : Reading Json :=
  match cs with
  | '0' :: rest => readUnsigned negative ['0'] rest
  | d :: _ =>
    if isDigit d then readUnsigned negative (cs.takeWhile isDigit) (cs.dropWhile isDigit)
    else .error (.value, start)
  | [] => .error (.value, start)

def readNumber (start : List Char) : Reading Json :=
  match start with
  | '-' :: rest => readSigned true start rest
  | cs => readSigned false start cs

/-- The text after a word that the text begins with. -/
def dropWord? (word : String) (cs : List Char) : Option (List Char) :=
  if word.toList.isPrefixOf cs then some (cs.drop word.length) else none

/-- The words for values, and the values they stand for. -/
def words : List (String × Json) :=
  [("null", .null), ("true", .bool true), ("false", .bool false), ("NaN", .real .nan),
    ("Infinity", .real (.infinite false)), ("-Infinity", .real (.infinite true))]

def readWord? (cs : List Char) : Option (Json × List Char) :=
  words.findSome? fun (word, v) => (dropWord? word cs).map fun rest => (v, rest)

mutual

def readValue : Nat → List Char → Reading Json
  | 0, cs => .error (.value, cs)
  | fuel + 1, cs =>
    match cs with
    | [] => .error (.value, cs)
    | '"' :: rest =>
      match readString cs (rest.length + 1) [] rest with
      | .error e => .error e
      | .ok (s, after) => .ok (.str s, after)
    | '[' :: rest =>
      match skipSpace rest with
      | ']' :: after => .ok (.arr [], after)
      | inner => readItems fuel [] inner
    | '{' :: rest =>
      match skipSpace rest with
      | '}' :: after => .ok (.obj [], after)
      | inner => readMembers fuel [] inner
    | _ =>
      match readWord? cs with
      | some found => .ok found
      | none => readNumber cs

def readItems : Nat → List Json → List Char → Reading Json
  | 0, _, cs => .error (.value, cs)
  | fuel + 1, acc, cs =>
    match readValue fuel cs with
    | .error e => .error e
    | .ok (v, after) =>
      match skipSpace after with
      | ']' :: rest => .ok (.arr (v :: acc).reverse, rest)
      | ',' :: rest => readItems fuel (v :: acc) (skipSpace rest)
      | rest => .error (.comma, rest)

def readMembers : Nat → List (String × Json) → List Char → Reading Json
  | 0, _, cs => .error (.value, cs)
  | fuel + 1, acc, cs =>
    match cs with
    | '"' :: text =>
      match readString cs (text.length + 1) [] text with
      | .error e => .error e
      | .ok (key, afterKey) =>
        match skipSpace afterKey with
        | ':' :: rest =>
          match readValue fuel (skipSpace rest) with
          | .error e => .error e
          | .ok (v, after) =>
            match skipSpace after with
            | '}' :: rest => .ok (.obj (Members.ofList ((key, v) :: acc).reverse), rest)
            | ',' :: rest => readMembers fuel ((key, v) :: acc) (skipSpace rest)
            | rest => .error (.comma, rest)
        | rest => .error (.colon, rest)
    | _ => .error (.propertyName, cs)

end

/-- The value that a text holds, with blanks around it and nothing else. -/
def readText (cs : List Char) : Except FaultAt Json :=
  match cs with
  | '\uFEFF' :: _ => .error (.byteOrderMark, cs)
  | _ =>
    match readValue (2 * cs.length + 2) (skipSpace cs) with
    | .error e => .error e
    | .ok (v, rest) =>
      if (skipSpace rest).isEmpty then .ok v else .error (.extraData, skipSpace rest)

/-- The line of a place, which is one more than the line feeds in front of it. -/
def lineOf (text rest : List Char) : Nat :=
  (text.take (text.length - rest.length)).count '\n' + 1

def read (text : String) : Except ReadError Json :=
  match readText text.toList with
  | .ok v => .ok v
  | .error (fault, rest) => .error ⟨fault, lineOf text.toList rest⟩

end ExportLint.Json
