/-!
# Reading UTF-8

A strict reader that names the first byte it cannot accept, and a lenient one that puts the
replacement character in its place. Both take the longest valid beginning of a broken sequence as
one error, so they agree on where the errors are.
-/
namespace ExportLint.Text.Utf8

/-- Why a byte sequence is not text. -/
inductive Fault where
  | startByte
  | continuationByte
  | endOfData
  deriving DecidableEq, Repr

/-- A fault with the bytes it covers: the first byte, its position and the number of bytes. -/
structure DecodeError where
  fault : Fault
  byte : UInt8
  position : Nat
  length : Nat
  deriving DecidableEq, Repr

def Fault.reason : Fault → String
  | .startByte => "invalid start byte"
  | .continuationByte => "invalid continuation byte"
  | .endOfData => "unexpected end of data"

def hexDigit (n : Nat) : Char :=
  if n < 10 then Char.ofNat (48 + n) else Char.ofNat (87 + n)

def hexByte (b : UInt8) : String :=
  String.ofList [hexDigit (b.toNat / 16), hexDigit (b.toNat % 16)]

def DecodeError.message (e : DecodeError) : String :=
  if e.length = 1 then
    "'utf-8' codec can't decode byte 0x" ++ hexByte e.byte ++ " in position " ++
      toString e.position ++ ": " ++ e.fault.reason
  else
    "'utf-8' codec can't decode bytes in position " ++ toString e.position ++ "-" ++
      toString (e.position + e.length - 1) ++ ": " ++ e.fault.reason

def isContinuation (b : UInt8) : Bool := 0x80 ≤ b && b < 0xC0

/-- The bytes that may follow a lead byte, and how many follow in all. -/
def expected (lead : UInt8) : Option (Nat × UInt8 × UInt8) :=
  if lead < 0xC2 then none
  else if lead < 0xE0 then some (1, 0x80, 0xBF)
  else if lead = 0xE0 then some (2, 0xA0, 0xBF)
  else if lead = 0xED then some (2, 0x80, 0x9F)
  else if lead < 0xF0 then some (2, 0x80, 0xBF)
  else if lead = 0xF0 then some (3, 0x90, 0xBF)
  else if lead < 0xF4 then some (3, 0x80, 0xBF)
  else if lead = 0xF4 then some (3, 0x80, 0x8F)
  else none

def leadBits (lead : UInt8) : Nat :=
  if lead < 0xE0 then lead.toNat % 32 else if lead < 0xF0 then lead.toNat % 16 else lead.toNat % 8

/-- One step of reading: a character, or a fault over one or more bytes. -/
inductive Step where
  | char (c : Char) (width : Nat)
  | fault (f : Fault) (width : Nat)
  deriving DecidableEq, Repr

/-- The continuation bytes of a sequence: the bits gathered, or where the sequence breaks. -/
def continuations (bits seen : Nat) : Nat → List UInt8 → Step
  | 0, _ => .char (Char.ofNat bits) seen
  | _ + 1, [] => .fault .endOfData seen
  | n + 1, b :: bs =>
    if isContinuation b then continuations (bits * 64 + b.toNat % 64) (seen + 1) n bs
    else .fault .continuationByte seen

def step (lead : UInt8) (rest : List UInt8) : Step :=
  if lead < 0x80 then .char (Char.ofNat lead.toNat) 1
  else
    match expected lead, rest with
    | none, _ => .fault .startByte 1
    | some _, [] => .fault .endOfData 1
    | some (n, low, high), b :: bs =>
      if low ≤ b && b ≤ high then
        continuations (leadBits lead * 64 + b.toNat % 64) 2 (n - 1) bs
      else .fault .continuationByte 1

def decodeFrom (position : Nat) (skip : Nat) : List UInt8 → Except DecodeError (List Char)
  | [] => .ok []
  | b :: bs =>
    match skip with
    | k + 1 => decodeFrom (position + 1) k bs
    | 0 =>
      match step b bs with
      | .char c width => (c :: ·) <$> decodeFrom (position + 1) (width - 1) bs
      | .fault f width => .error ⟨f, b, position, width⟩

/-- The text that the bytes encode, or the first fault. -/
def decode (bytes : List UInt8) : Except DecodeError (List Char) := decodeFrom 0 0 bytes

def decodeLossyFrom (skip : Nat) : List UInt8 → List Char
  | [] => []
  | b :: bs =>
    match skip with
    | k + 1 => decodeLossyFrom k bs
    | 0 =>
      match step b bs with
      | .char c width => c :: decodeLossyFrom (width - 1) bs
      | .fault _ width => Char.ofNat 0xFFFD :: decodeLossyFrom (width - 1) bs

/-- The text that the bytes encode, with a replacement character for every fault. -/
def decodeLossy (bytes : List UInt8) : List Char := decodeLossyFrom 0 bytes

def encode (s : String) : List UInt8 := s.toUTF8.toList

end ExportLint.Text.Utf8
