import ExportLint.CommandLine.Usage
import ExportLint.Text.Letter

/-!
# Grammars of arguments

A grammar lists the options of a program and what stands besides them: a place, or a command with
everything behind it. An argument is first told apart from options by its looks; then the arguments
are read from left to right. An option may be cut short as long as no other starts alike, its
argument may be attached to it, and behind a double hyphen nothing is an option.
-/
namespace ExportLint.CommandLine

/-- How many arguments an option takes. -/
inductive Arity where
  | none
  | one
  /-- One or more. -/
  | some
  deriving DecidableEq, Repr

inductive Purpose where
  | setting
  | help
  | version
  deriving DecidableEq, Repr

structure Opt where
  /-- The spellings of the option with their hyphens. -/
  names : List String
  arity : Arity := .none
  choices : Option (List String) := Option.none
  purpose : Purpose := .setting
  deriving DecidableEq, Repr

/-- The name of an option in messages. -/
def Opt.label (o : Opt) : String := "/".intercalate o.names

/-- What stands besides the options. -/
inductive Operand where
  /-- At most one argument. -/
  | place
  /-- A command, by its name in messages, with everything behind it. -/
  | command (role : String) (names : List String)
  deriving DecidableEq, Repr

structure Grammar where
  program : String
  options : List Opt
  operand : Operand
  deriving DecidableEq, Repr

/-- A value in the same argument as its option, perhaps behind an equals sign. -/
structure Attached where
  equals : Bool
  value : List Char
  deriving DecidableEq, Repr

/-- What an argument looks like. -/
inductive Look where
  | operand
  | separator
  | option (opt : Opt) (name : String) (attached : Option Attached)
  /-- Like an option, but none of the grammar. -/
  | unknown
  deriving DecidableEq, Repr

/-- What was read: the values of the options that were set, what stands besides them if it was
there, and what has no place in the grammar. -/
structure Reading where
  settings : List (String × List String) := []
  operands : Option (List String) := none
  extras : List String := []
  deriving DecidableEq, Repr

namespace Grammar

/-- Every spelling with its option, in order. -/
def spellings (g : Grammar) : List (String × Opt) :=
  g.options.flatMap fun o => o.names.map fun n => (n, o)

def find? (g : Grammar) (name : String) : Option Opt := g.spellings.lookup name

def fail {α : Type} (g : Grammar) (fault : UsageFault) : Except Stop α :=
  .error (.usage g.program fault)

/-- A hyphen and a decimal number. -/
def isNegativeNumber (cs : List Char) : Bool :=
  let cs := if cs.getLast? = some '\n' then cs.dropLast else cs
  match cs with
  | '-' :: ds =>
    let whole := ds.takeWhile Text.Letter.isDigit
    match ds.dropWhile Text.Letter.isDigit with
    | [] => !whole.isEmpty
    | '.' :: fraction => !fraction.isEmpty && fraction.all Text.Letter.isDigit
    | _ => false
  | _ => false

/-- The part of an argument before its first equals sign and the value behind it. -/
def splitEquals (cs : List Char) : String × Option Attached :=
  (String.ofList (cs.takeWhile (· ≠ '=')),
    match cs.dropWhile (· ≠ '=') with
    | [] => none
    | _ :: value => some ⟨true, value⟩)

/-- The options that an argument may be short for. Behind a single hyphen one letter may have its
value attached. -/
def candidates (g : Grammar) (cs : List Char) : List (String × Opt × Option Attached) :=
  match cs with
  | '-' :: '-' :: _ =>
    let (lead, attached) := splitEquals cs
    (g.spellings.filter fun n => n.1.startsWith lead).map fun (n, o) => (n, o, attached)
  | a :: b :: value =>
    g.spellings.filterMap fun (n, o) =>
      if n = String.ofList [a, b] then some (n, o, some ⟨false, value⟩)
      else if n.startsWith (String.ofList cs) then some (n, o, none)
      else none
  | _ => []

/-- What an argument before a double hyphen looks like. -/
def look (g : Grammar) (s : String) : Except Stop Look :=
  let cs := s.toList
  if cs.head? ≠ some '-' then .ok .operand
  else
    match g.find? s, splitEquals cs with
    | some o, _ => .ok (.option o s none)
    | none, (lead, attached) =>
      if cs.length = 1 then .ok .operand
      else
        match attached.bind fun _ => g.find? lead with
        | some o => .ok (.option o lead attached)
        | none =>
          match g.candidates cs with
          | [] => .ok (if isNegativeNumber cs || cs.contains ' ' then .operand else .unknown)
          | [(n, o, attached)] => .ok (.option o n attached)
          | many => g.fail (.ambiguous s (many.map (·.1)))

/-- The arguments with their looks. -/
def looks (g : Grammar) : List String → Except Stop (List (String × Look))
  | [] => .ok []
  | s :: rest =>
    if s = "--" then .ok ((s, .separator) :: rest.map fun r => (r, Look.operand))
    else do return (s, ← g.look s) :: (← looks g rest)

/-- Options that stand in one argument, what has no place in it, and how many of the arguments
behind it belong to them. -/
structure Bundle where
  settings : List (Opt × List String)
  extras : List String := []
  taken : Nat := 0
  deriving DecidableEq, Repr

/-- An option with the arguments behind it, of which the first ones may be its own. -/
def withFollowing (g : Grammar) (following : List String) (o : Opt) : Except Stop Bundle :=
  match o.arity, following with
  | .none, _ => .ok { settings := [(o, [])] }
  | .one, v :: _ => .ok { settings := [(o, [v])], taken := 1 }
  | .one, [] => g.fail (.needsOne o.label)
  | .some, [] => g.fail (.needsSome o.label)
  | .some, vs => .ok { settings := [(o, vs)], taken := vs.length }

/-- An option with an attached value. Behind a letter that takes none, further letters follow. -/
def withAttached (g : Grammar) (following : List String) (o : Opt) (isLetter equals : Bool) :
    List Char → Except Stop Bundle
  | [] =>
    if o.arity = .none then g.fail (.needsNone o.label "") else .ok { settings := [(o, [""])] }
  | c :: cs =>
    let value := String.ofList (c :: cs)
    if o.arity ≠ .none then .ok { settings := [(o, [value])] }
    else if !isLetter || equals || c = '-' then g.fail (.needsNone o.label value)
    else
      match g.find? (String.ofList ['-', c]) with
      | none => .ok { settings := [(o, [])], extras := [String.ofList ('-' :: c :: cs)] }
      | some next => do
        let b ← match cs with
          | [] => g.withFollowing following next
          | '=' :: ds => g.withAttached following next true true ds
          | d :: ds => g.withAttached following next true false (d :: ds)
        return { b with settings := (o, []) :: b.settings }

/-- Take options in their order. The first question about the program ends the reading. -/
def perform (g : Grammar) (r : Reading) : List (Opt × List String) → Except Stop Reading
  | [] => .ok r
  | (o, values) :: rest =>
    match o.purpose with
    | .help => .error (.help g.program)
    | .version => .error (.version g.program)
    | .setting =>
      match o.choices, values.find? fun v => !((o.choices.getD []).contains v) with
      | some choices, some v => g.fail (.notAmong o.label v choices)
      | _, _ =>
        g.perform { r with settings := ((o.names.head?).getD "", values) :: r.settings } rest

/-- What an option reads. -/
def bundle (g : Grammar) (following : List String) (o : Opt) (name : String) :
    Option Attached → Except Stop Bundle
  | none => g.withFollowing following o
  | some a =>
    g.withAttached following o ((name.toList[1]?).any (· ≠ '-')) a.equals a.value

/-- The command that an operand starts, with everything behind it. -/
def command (g : Grammar) (role : String) (names : List String) (r : Reading)
    (arguments : List String) : Except Stop Reading :=
  match arguments with
  | [] => .ok r
  | name :: _ =>
    if names.contains name then .ok { r with operands := some arguments }
    else g.fail (.notAmong role name names)

/-- Read arguments from left to right. A double hyphen next to the place belongs to it. -/
def walk (g : Grammar) (r : Reading) : List (String × Look) → Except Stop Reading
  | [] => .ok r
  | (s, .unknown) :: rest => g.walk { r with extras := r.extras ++ [s] } rest
  | (_, .option o name attached) :: rest => do
    let following := (rest.takeWhile fun t => t.2 = .operand).map (·.1)
    let b ← g.bundle following o name attached
    let r ← g.perform { r with extras := r.extras ++ b.extras } b.settings
    g.walk r (rest.drop b.taken)
  | (s, look) :: rest =>
    match g.operand, r.operands with
    | _, some _ => g.walk { r with extras := r.extras ++ [s] } rest
    | .command role names, none =>
      if look = .separator && rest.isEmpty then .ok { r with extras := r.extras ++ [s] }
      else g.command role names r (s :: rest.map (·.1))
    | .place, none =>
      match look, rest with
      | .separator, [] => .ok r
      | .separator, (t, _) :: rest => g.walk { r with operands := some [t] } rest
      | _, (_, .separator) :: rest => g.walk { r with operands := some [s] } rest
      | _, rest => g.walk { r with operands := some [s] } rest
  termination_by ts => ts.length
  decreasing_by all_goals (simp only [List.length_cons, List.length_drop]; omega)

/-- Read the arguments of a program. -/
def read (g : Grammar) (arguments : List String) : Except Stop Reading := do
  let r ← g.walk {} (← g.looks arguments)
  match g.operand, r.operands with
  | .command role _, none => g.fail (.missing role)
  | _, _ => return r

end Grammar

namespace Reading

/-- The argument of an option. -/
def value? (r : Reading) (name : String) : Option String := (r.settings.lookup name).bind (·.head?)

def values? (r : Reading) (name : String) : Option (List String) := r.settings.lookup name

def has (r : Reading) (name : String) : Bool := (r.settings.lookup name).isSome

/-- The place, or the current directory. -/
def place (r : Reading) : String := ((r.operands.getD []).head?).getD "."

end Reading

end ExportLint.CommandLine
