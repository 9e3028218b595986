import ExportLint.Decimal.Binary64

/-!
# The shortest decimal numeral of a number

Of all decimals that read back as the number, one with the fewest digits; of those with as few, the
nearest. The candidates with `n` digits are the two neighbours of the number among the decimals with
`n` digits, since any other one lies further away on the same side.
-/
namespace ExportLint.Decimal

/-- A decimal `digits * 10 ^ power`. -/
structure Numeral where
  digits : Nat
  power : Int
  deriving DecidableEq, Repr

/-- The digits of a number in base ten, the most significant first. -/
def digitsOf (n : Nat) : List Char := Nat.toDigits 10 n

/-- The quotient times `10 ^ power`. -/
def scaleUp (num den : Nat) (power : Int) : Nat × Nat :=
  match power with
  | .ofNat k => (num * Nat.pow 10 k, den)
  | .negSucc k => (num, den * Nat.pow 10 (k + 1))

/-- The position of the leading digit: the quotient lies in `[10 ^ (p - 1), 10 ^ p)`. -/
def leadingPlace (num den : Nat) : Int :=
  let guess : Int := ((num.log2 : Int) - den.log2) * 30103 / 100000
  let reaches (p : Int) : Bool :=
    let (n, d) := scaleUp num den (-p)
    d ≤ n
  if reaches (guess + 1) then guess + 2
  else if reaches guess then guess + 1
  else if reaches (guess - 1) then guess
  else guess - 1

namespace Numeral

/-- The numeral reads back as the number. -/
def readsAs (d : Numeral) (mantissa : Nat) (exponent : Int) : Bool :=
  Binary64.ofDecimal false d.digits d.power == .finite false mantissa exponent

/-- The decimal nearest to the number among those with a power of ten, and the one on the other side
of the number. -/
def neighbours (mantissa : Nat) (exponent power : Int) : List Numeral :=
  let ratio := Binary64.ratio mantissa exponent
  let scaled := scaleUp ratio.1 ratio.2 (-power)
  let low := scaled.1 / scaled.2
  let near := roundDiv scaled.1 scaled.2
  [⟨near, power⟩, ⟨if near = low then low + 1 else low, power⟩]

/-- The neighbour with `n` digits that reads back, the nearer one if both do. -/
def withDigits? (mantissa : Nat) (exponent : Int) (place : Int) (n : Nat) : Option Numeral :=
  (neighbours mantissa exponent (place - n)).find? (·.readsAs mantissa exponent)

/-- Zeros at the end of the digits moved into the power. -/
def trimZeros : Nat → Numeral → Numeral
  | 0, d => d
  | k + 1, d =>
    if d.digits ≠ 0 ∧ d.digits % 10 = 0 then trimZeros k ⟨d.digits / 10, d.power + 1⟩ else d

/-- The shortest numeral of a positive finite number. -/
def shortest (mantissa : Nat) (exponent : Int) : Numeral :=
  let ratio := Binary64.ratio mantissa exponent
  let place := leadingPlace ratio.1 ratio.2
  let found := (List.range 17).findSome? fun k => withDigits? mantissa exponent place (k + 1)
  trimZeros 20 (found.getD ⟨ratio.1, 0⟩)

end Numeral

/-- How a format writes numbers. -/
structure NumberForm where
  /-- Decimal exponents written without an exponent mark: from `low` on, below `high`. -/
  low : Int
  high : Int
  /-- The least number of digits of an exponent. -/
  exponentDigits : Nat
  nan : String
  infinity : String
  deriving Repr

/-- A whole number's digits with zeros in front up to a width. -/
def padDigits (width n : Nat) : List Char :=
  let ds := digitsOf n
  List.replicate (width - ds.length) '0' ++ ds

/-- A numeral in a form: a point always stands between digits, and an exponent has a sign. -/
def Numeral.render (form : NumberForm) (d : Numeral) : List Char :=
  let ds := digitsOf d.digits
  let e : Int := d.power + ds.length - 1
  if form.low ≤ e ∧ e < form.high then
    if 0 ≤ d.power then ds ++ List.replicate d.power.toNat '0' ++ ['.', '0']
    else if 0 ≤ e then ds.take (e.toNat + 1) ++ '.' :: ds.drop (e.toNat + 1)
    else '0' :: '.' :: List.replicate ((-e).toNat - 1) '0' ++ ds
  else
    ds.take 1 ++ (if ds.length = 1 then [] else '.' :: ds.drop 1) ++
      'e' :: (if 0 ≤ e then '+' else '-') :: padDigits form.exponentDigits e.natAbs

namespace Binary64

def render (form : NumberForm) : Binary64 → String
  | .nan => form.nan
  | .infinite s => (if s then "-" else "") ++ form.infinity
  | .finite s m e =>
    let sign := if s then "-" else ""
    if m = 0 then sign ++ "0.0" else sign ++ String.ofList ((Numeral.shortest m e).render form)

end Binary64

end ExportLint.Decimal
