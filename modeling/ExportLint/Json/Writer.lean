import ExportLint.Decimal.Shortest
import ExportLint.Json.Value

/-!
# Writing JSON

Values are written with two blanks of indentation a level, or on one line. Characters beyond ASCII
stand for themselves or are written as code units.
-/
namespace ExportLint.Json

open Decimal (Binary64 NumberForm)

/-- Numbers are positional from 0.0001 up to 10 ^ 16 and have an exponent elsewhere. -/
def numberForm : NumberForm := ⟨-4, 16, 2, "NaN", "Infinity"⟩

def hexDigit (n : Nat) : Char :=
  if n < 10 then Char.ofNat (48 + n) else Char.ofNat (87 + n)

/-- A code unit as an escape. -/
def unitEscape (n : Nat) : List Char :=
  ['\\', 'u', hexDigit (n / 4096 % 16), hexDigit (n / 256 % 16), hexDigit (n / 16 % 16),
    hexDigit (n % 16)]

/-- The code units of a character that is not ASCII. -/
def unitEscapes (n : Nat) : List Char :=
  if n < 0x10000 then unitEscape n
  else unitEscape (0xD800 + (n - 0x10000) / 1024) ++ unitEscape (0xDC00 + (n - 0x10000) % 1024)

/-- One character inside quotes. With `ascii`, everything outside the printable ASCII range is
escaped; without it, only control characters are. -/
def escapeChar (ascii : Bool) (c : Char) : List Char :=
  match c with
  | '"' => ['\\', '"']
  | '\\' => ['\\', '\\']
  | '\n' => ['\\', 'n']
  | '\r' => ['\\', 'r']
  | '\t' => ['\\', 't']
  | '\x08' => ['\\', 'b']
  | '\x0c' => ['\\', 'f']
  | c =>
    if c.toNat < 32 then unitEscape c.toNat
    else if ascii && 126 < c.toNat then unitEscapes c.toNat
    else [c]

def quote (ascii : Bool) (s : String) : String :=
  String.ofList ('"' :: s.toList.flatMap (escapeChar ascii) ++ ['"'])

/-- How a value is laid out. -/
structure Layout where
  ascii : Bool
  /-- Blanks a level, with every item on a line of its own. One line if there is none. -/
  indent : Option Nat
  deriving DecidableEq, Repr

/-- The break in front of an item at a depth. -/
def Layout.break (lay : Layout) (depth : Nat) : String :=
  match lay.indent with
  | none => ""
  | some n => "\n" ++ String.ofList (List.replicate (n * depth) ' ')

def Layout.colon (lay : Layout) : String := if lay.indent.isSome then ": " else ":"

mutual

def write (lay : Layout) (depth : Nat) : Json → String
  | .null => "null"
  | .bool b => if b then "true" else "false"
  | .int i => toString i
  | .real x => x.render numberForm
  | .str s => quote lay.ascii s
  | .arr [] => "[]"
  | .arr (v :: vs) =>
    "[" ++ lay.break (depth + 1) ++ write lay (depth + 1) v ++ writeItems lay (depth + 1) vs ++
      lay.break depth ++ "]"
  | .obj [] => "\x7b\x7d"
  | .obj ((k, v) :: ms) =>
    "\x7b" ++ lay.break (depth + 1) ++ quote lay.ascii k ++ lay.colon ++
      write lay (depth + 1) v ++ writeMembers lay (depth + 1) ms ++ lay.break depth ++ "\x7d"

def writeItems (lay : Layout) (depth : Nat) : List Json → String
  | [] => ""
  | v :: vs => "," ++ lay.break depth ++ write lay depth v ++ writeItems lay depth vs

def writeMembers (lay : Layout) (depth : Nat) : List (String × Json) → String
  | [] => ""
  | (k, v) :: ms =>
    "," ++ lay.break depth ++ quote lay.ascii k ++ lay.colon ++ write lay depth v ++
      writeMembers lay depth ms

end

/-- Indented text in which every character stands for itself. -/
def pretty (v : Json) : String := write ⟨false, some 2⟩ 0 v

/-- Indented text in ASCII. -/
def prettyAscii (v : Json) : String := write ⟨true, some 2⟩ 0 v

/-- One line. -/
def compress (v : Json) : String := write ⟨false, none⟩ 0 v

end ExportLint.Json
