import ExportLint.Syntax.Markup
import ExportLint.Syntax.Statement

/-!
# Reading sources

A source is read statement by statement. Comments between statements are kept in the tree, those
within a statement are not. A strict reader refuses a source with a statement that it cannot read; a
lenient one passes over the rest of such a line.
-/
namespace ExportLint.Syntax

/-- How each goal is read, given how the goals within it are. -/
def produce (markup : Bool) (go : Grammar) : Grammar
  | .statement => statement go
  | .block => block go
  | .classBody => classBody go
  | .element => element go
  | .pattern => pattern go
  | .callee => callee go markup
  | .baseClass => baseClass go markup
  | .expression m => expression go m
  | .binary level m => binary go level m
  | .unary m => unary go markup m
  | .type e => fullType go e
  | .unionType e => unionType go e
  | .prefixType e => prefixType go e

/-- The grammar down to a depth. -/
def grammar (markup : Bool) : Nat → Grammar
  | 0, _ => failure
  | depth + 1, goal => produce markup (grammar markup depth) goal

/-- Goals that may lie within each other without a character between them. -/
def goalsPerCharacter : Nat := 16

def depthFor (cs : List Char) : Nat := goalsPerCharacter * (cs.length + 1)

def commentNode (s : Cursor.Span) : Node :=
  { kind := "comment", start := s.start, stop := s.stop }

/-- The first line may say which program runs the source. -/
def hashBang (c : Cursor) : List Node × Cursor :=
  match c.rest with
  | '#' :: '!' :: _ =>
    let d := c.dropWhile fun x => !isLineEnd x
    ([{ kind := "hash_bang_line", start := c.offset, stop := d.offset }],
      { d with last := d.offset })
  | _ => ([], c)

/-- Pass over what cannot be read, up to the end of a statement or a line. -/
def passOver (c : Cursor) : Node × Cursor :=
  let d := c.dropWhile fun x => x != ';' && !isLineEnd x
  let e := (d.drop? [';']).getD d
  ({ kind := "ERROR", start := c.offset, stop := e.offset }, { e with last := e.offset })

/-- Statements and the comments between them, to the end of the source. -/
def statementsFrom (go : Grammar) (strict : Bool) : Nat → Cursor → Option (List Node)
  | 0, _ => none
  | fuel + 1, c =>
    let (comments, d) := c.skipTrivia
    let lead := comments.map commentNode
    if d.rest.isEmpty then some lead
    else
      match go .statement d with
      | some (n, e) => (fun ns => lead ++ n :: ns) <$> statementsFrom go strict fuel e
      | none =>
        if strict then none
        else
          let (n, e) := passOver d
          (fun ns => lead ++ n :: ns) <$> statementsFrom go strict fuel e

/-- The tree of a source, if it can be read. -/
def read? (markup strict : Bool) (text : List Char) : Option Node :=
  let go := grammar markup (depthFor text)
  let (lead, c) := hashBang (Cursor.ofText text)
  (statementsFrom go strict (text.length + 1) c).map fun ns =>
    { kind := "program", start := c.skipBlanks.offset, stop := byteLength text,
      children := lead ++ ns }

end ExportLint.Syntax
