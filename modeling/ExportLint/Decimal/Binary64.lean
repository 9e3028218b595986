/-!
# Double precision numbers

A finite number is a sign, a whole mantissa and a power of two; nothing is left to the machine.
Fractions and decimal numerals are rounded to the nearest number, a tie to the even mantissa.
-/
namespace ExportLint.Decimal

/-- A number of the binary format with 53 digits. A finite one is `± mantissa * 2 ^ exponent`. -/
inductive Binary64 where
  | nan
  | infinite (negative : Bool)
  | finite (negative : Bool) (mantissa : Nat) (exponent : Int)
  deriving DecidableEq, Repr

/-- A quotient of whole numbers rounded to the nearest whole number, a tie to the even one. -/
def roundDiv (num den : Nat) : Nat :=
  let q := num / den
  let twice := 2 * (num % den)
  if twice < den then q else if den < twice then q + 1 else q + q % 2

/-- `num / den * 2 ^ (-shift)` as a quotient of whole numbers. -/
def scaleDown (num den : Nat) (shift : Int) : Nat × Nat :=
  match shift with
  | .ofNat k => (num, den * Nat.pow 2 k)
  | .negSucc k => (num * Nat.pow 2 (k + 1), den)

namespace Binary64

/-- The least exponent at which the quotient has at most 53 binary digits before the point. -/
def exponentOf (num den : Nat) : Int :=
  let guess : Int := (num.log2 : Int) - den.log2 - 53
  let fits (e : Int) : Bool :=
    let (n, d) := scaleDown num den e
    n < d * Nat.pow 2 53
  let e := if fits guess then guess else if fits (guess + 1) then guess + 1 else guess + 2
  max e (-1074)

/-- A finite number, or the infinite one beyond the largest exponent. -/
def bounded (negative : Bool) (mantissa : Nat) (exponent : Int) : Binary64 :=
  if 971 < exponent then .infinite negative else .finite negative mantissa exponent

/-- The number with a rounded mantissa: rounding can carry into a digit more than there may be. -/
def ofMantissa (negative : Bool) (mantissa : Nat) (exponent : Int) : Binary64 :=
  if mantissa = Nat.pow 2 53 then bounded negative (Nat.pow 2 52) (exponent + 1)
  else bounded negative mantissa exponent

/-- The number nearest to a quotient. A quotient beyond the largest number is infinite. -/
def ofRatio (negative : Bool) (num den : Nat) : Binary64 :=
  if num = 0 ∨ den = 0 then .finite negative 0 (-1074)
  else
    let e := exponentOf num den
    let scaled := scaleDown num den e
    ofMantissa negative (roundDiv scaled.1 scaled.2) e

/-- The number nearest to `digits * 10 ^ power`. Powers far outside the format are decided without
writing them out. -/
def ofDecimal (negative : Bool) (digits : Nat) (power : Int) : Binary64 :=
  let size : Int := (digits.log2 : Int) / 3 + 1
  if digits = 0 then .finite negative 0 (-1074)
  else if 400 < power then .infinite negative
  else if power + size < -400 then .finite negative 0 (-1074)
  else
    match power with
    | .ofNat k => ofRatio negative (digits * Nat.pow 10 k) 1
    | .negSucc k => ofRatio negative digits (Nat.pow 10 (k + 1))

def ofNat (n : Nat) : Binary64 := ofRatio false n 1

def isZero : Binary64 → Bool
  | .finite _ 0 _ => true
  | _ => false

/-- The magnitude as a quotient, for a finite number. -/
def ratio (mantissa : Nat) (exponent : Int) : Nat × Nat := scaleDown mantissa 1 (-exponent)

/-- The whole number that a finite number equals, if there is one. -/
def toInt? : Binary64 → Option Int
  | .finite s m e =>
    let (n, d) := ratio m e
    if n % d = 0 then some (if s then -((n / d : Nat) : Int) else (n / d : Nat)) else none
  | _ => none

/-- Numerical equality: the two zeros are equal, and no number equals itself when it is none. -/
def equal : Binary64 → Binary64 → Bool
  | .nan, _ => false
  | _, .nan => false
  | .infinite s, .infinite t => s == t
  | .finite s m e, .finite t n f =>
    (m == 0 && n == 0) || (s == t && m == n && e == f)
  | _, _ => false

end Binary64

end ExportLint.Decimal
