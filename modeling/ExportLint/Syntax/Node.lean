import ExportLint.Module.Location
import ExportLint.Text.Utf8

/-!
# Syntax trees

A node has a kind, the field that it fills in its parent, and a stretch of the source in bytes.
Named nodes stand for constructs, the others for keywords and punctuation.
-/
namespace ExportLint

structure Node where
  kind : String
  field : Option String := none
  named : Bool := true
  start : Nat
  stop : Nat
  children : List Node := []
  deriving Repr

namespace Node

/-- The first child that fills a field. -/
def child? (n : Node) (field : String) : Option Node :=
  n.children.find? fun c => c.field == some field

def namedChildren (n : Node) : List Node := n.children.filter (·.named)

/-- A keyword or a mark stands among the children. -/
def hasToken (n : Node) (token : String) : Bool :=
  n.children.any fun c => !c.named && c.kind == token

/-- A child of a kind, be it named or not. -/
def hasChild (n : Node) (kind : String) : Bool := n.children.any fun c => c.kind == kind

end Node

/-- A place in a source, counted from zero. -/
structure Point where
  row : Nat
  column : Nat
  deriving DecidableEq, Repr

/-- The text of a file in bytes. -/
structure Source where
  file : String
  bytes : List UInt8
  deriving Repr

namespace Source

/-- The row is the number of line feeds before an offset, the column the distance from the last. -/
def pointFrom (row column : Nat) : Nat → List UInt8 → Point
  | 0, _ => ⟨row, column⟩
  | n + 1, [] => ⟨row, column + n + 1⟩
  | n + 1, b :: bs => if b = 10 then pointFrom (row + 1) 0 n bs else pointFrom row (column + 1) n bs

def point (s : Source) (offset : Nat) : Point := pointFrom 0 0 offset s.bytes

/-- The text of a stretch, with a mark for each fault in its encoding. -/
def slice (s : Source) (start stop : Nat) : String :=
  String.ofList (Text.Utf8.decodeLossy ((s.bytes.drop start).take (stop - start)))

def text (s : Source) (n : Node) : String := s.slice n.start n.stop

/-- The place from the start of one node to the end of another. -/
def span (s : Source) (first last : Node) : Location :=
  let a := s.point first.start
  let b := s.point last.stop
  ⟨s.file, a.row + 1, a.column + 1, b.row + 1, b.column + 1⟩

def location (s : Source) (n : Node) : Location := s.span n n

def isQuote (c : Char) : Bool := c == '\'' || c == '"' || c == '`'

/-- A text without the quotation marks around it. -/
def unquoted (t : String) : String :=
  match t.toList with
  | q :: rest =>
    if isQuote q && rest.getLast? == some q then String.ofList rest.dropLast else t
  | [] => t

def stringValue (s : Source) (n : Node) : String := unquoted (s.text n)

/-- The name that a node gives. Names may be written as strings. -/
def nameText (s : Source) : Option Node → String
  | none => ""
  | some n => if n.kind = "string" then s.stringValue n else s.text n

end Source

end ExportLint
