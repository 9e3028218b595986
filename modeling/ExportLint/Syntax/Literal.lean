import ExportLint.Syntax.Cursor

/-!
# Literals

Numbers, strings and regular expressions as they are written. Each function gives the longest
literal that a text starts with.
-/
namespace ExportLint.Syntax

/-- Digits with single underscores between them; none unless a digit comes first. -/
def digitRun (p : Char → Bool) : List Char → List Char
  | c :: cs =>
    if p c then
      match cs with
      | '_' :: d :: rest => if p d then c :: '_' :: digitRun p (d :: rest) else [c]
      | cs => c :: digitRun p cs
    else []
  | [] => []

/-- A sign, an exponent mark and digits. -/
def exponentOf (cs : List Char) : List Char :=
  let digits (lead rest : List Char) : List Char :=
    match digitRun isDecimalDigit rest with
    | [] => []
    | ds => lead ++ ds
  match cs with
  | e :: rest =>
    if e = 'e' ∨ e = 'E' then
      match rest with
      | '+' :: more => digits [e, '+'] more
      | '-' :: more => digits [e, '-'] more
      | more => digits [e] more
    else []
  | [] => []

/-- An `n` behind a whole number. -/
def wholeMark (cs rest : List Char) : List Char :=
  if (rest.drop cs.length).head? = some 'n' then cs ++ ['n'] else cs

def isBinaryDigit (c : Char) : Bool := c == '0' || c == '1'

def isOctalDigit (c : Char) : Bool := '0' ≤ c && c ≤ '7'

/-- A number in another base than ten. -/
def basedNumberOf (lead : List Char) (p : Char → Bool) (rest : List Char) : List Char :=
  match digitRun p rest with
  | [] => []
  | ds => wholeMark (lead ++ ds) (lead ++ rest)

def decimalNumberOf (cs : List Char) : List Char :=
  let whole := digitRun isDecimalDigit cs
  let rest := cs.drop whole.length
  match rest with
  | '.' :: more =>
    let fraction := digitRun isDecimalDigit more
    if whole.isEmpty && fraction.isEmpty then []
    else
      let mantissa := whole ++ '.' :: fraction
      mantissa ++ exponentOf (cs.drop mantissa.length)
  | rest =>
    if whole.isEmpty then []
    else
      match exponentOf rest with
      | [] => wholeMark whole cs
      | e => whole ++ e

def numberOf (cs : List Char) : List Char :=
  let based := match cs with
    | '0' :: b :: rest =>
      if b = 'x' ∨ b = 'X' then basedNumberOf ['0', b] isHexDigit rest
      else if b = 'o' ∨ b = 'O' then basedNumberOf ['0', b] isOctalDigit rest
      else if b = 'b' ∨ b = 'B' then basedNumberOf ['0', b] isBinaryDigit rest
      else []
    | _ => []
  if based.isEmpty then decimalNumberOf cs else based

/-- What a backslash takes with it, and the rest. -/
def escapeOf : List Char → Option (List Char × List Char)
  | 'x' :: a :: b :: rest => if isHexDigit a && isHexDigit b then some (['x', a, b], rest) else none
  | 'x' :: _ => none
  | 'u' :: rest => codeEscape? ('u' :: rest)
  | '\r' :: '\n' :: rest => some (['\r', '\n'], rest)
  | c :: rest => some ([c], rest)
  | [] => none

/-- The rest of a string up to its closing mark. -/
def stringRest (quote : Char) : Nat → List Char → Option (List Char)
  | 0, _ => none
  | _ + 1, [] => none
  | fuel + 1, '\\' :: rest =>
    match escapeOf rest with
    | some (e, after) => (fun s => '\\' :: e ++ s) <$> stringRest quote fuel after
    | none => none
  | fuel + 1, c :: rest =>
    if c = quote then some [c]
    else if c = '\n' ∨ c = '\r' then none
    else (c :: ·) <$> stringRest quote fuel rest

def stringOf : List Char → List Char
  | q :: rest =>
    if q = '"' ∨ q = '\'' then ((q :: ·) <$> stringRest q (rest.length + 1) rest).getD [] else []
  | [] => []

/-- The rest of a regular expression up to its closing slash. Slashes within brackets count as
characters. -/
def regexRest (inClass : Bool) : List Char → Option (List Char)
  | [] => none
  | '\n' :: _ => none
  | '\\' :: c :: rest =>
    if c = '\n' then none else (fun s => '\\' :: c :: s) <$> regexRest inClass rest
  | '/' :: rest => if inClass then ('/' :: ·) <$> regexRest true rest else some ['/']
  | '[' :: rest => ('[' :: ·) <$> regexRest true rest
  | ']' :: rest => (']' :: ·) <$> regexRest false rest
  | c :: rest => (c :: ·) <$> regexRest inClass rest

def isFlag (c : Char) : Bool := 'a' ≤ c && c ≤ 'z'

def regexOf : List Char → List Char
  | '/' :: rest =>
    match regexRest false rest with
    | some ['/'] => []
    | some body => '/' :: body ++ (rest.drop body.length).takeWhile isFlag
    | none => []
  | _ => []

/-- A literal that one of the functions above finds. -/
def literal (kind : String) (find : List Char → List Char) : Parser Node := do
  toNext
  match find (← get).rest with
  | [] => failure
  | text => takeToken kind true text

def number : Parser Node := literal "number" numberOf

def string : Parser Node := literal "string" stringOf

def regex : Parser Node := literal "regex" regexOf

end ExportLint.Syntax
