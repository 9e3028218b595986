import ExportLint.Text.Lines
import ExportLint.Text.Width

/-!
# Tables

A table has a title above it, a heading in heavy lines, and rows in light ones. A column is as wide
as its widest cell, with a blank on either side.
-/
namespace ExportLint.Terminal

structure Column where
  heading : String
  /-- Cells stand at the right end of the column. -/
  toRight : Bool := false
  deriving DecidableEq, Repr

structure Table where
  title : String
  columns : List Column
  rows : List (List String)
  deriving DecidableEq, Repr

/-- The characters of a line across a table. -/
structure Border where
  left : String
  fill : Char
  between : String
  right : String
  deriving DecidableEq, Repr

namespace Table

def top : Border := ⟨"┏", '━', "┳", "┓"⟩
def belowHeading : Border := ⟨"┡", '━', "╇", "┩"⟩
def bottom : Border := ⟨"└", '─', "┴", "┘"⟩

def cellWidth (s : String) : Nat := ((Text.lines s).map Text.width).foldl max 0

/-- The widths of the columns without their margins. -/
def widths (t : Table) : List Nat :=
  t.rows.foldl (fun ws row => ws.zipWith max (row.map cellWidth))
    (t.columns.map fun c => cellWidth c.heading)

def borderLine (b : Border) (ws : List Nat) : String :=
  b.left ++ b.between.intercalate (ws.map fun w => String.ofList (List.replicate (w + 2) b.fill)) ++
    b.right

/-- A text in a field of a width. -/
def fitted (w : Nat) (toRight : Bool) (s : String) : String :=
  let gap := Text.blanks (w - Text.width s)
  if toRight then gap ++ s else s ++ gap

/-- The lines of a row: as many as its highest cell has. -/
def rowLines (t : Table) (bar : String) (ws : List Nat) (row : List String) : List String :=
  let cells := row.map Text.lines
  let height := (cells.map List.length).foldl max 1
  (List.range height).map fun k =>
    let fields := (t.columns.zip ws).zipWith
      (fun (c, w) ls => fitted w c.toRight ((ls[k]?).getD "")) cells
    bar ++ " " ++ (" " ++ bar ++ " ").intercalate fields ++ " " ++ bar

/-- The title in the middle of a line as wide as the table. -/
def titleLine (total : Nat) (title : String) : String :=
  let gap := total - Text.width title
  Text.blanks (gap / 2) ++ title ++ Text.blanks (gap - gap / 2)

def lines (t : Table) : List String :=
  let ws := t.widths
  [titleLine (ws.foldr (· + ·) 0 + 3 * ws.length + 1) t.title, borderLine top ws] ++
    t.rowLines "┃" ws (t.columns.map (·.heading)) ++ [borderLine belowHeading ws] ++
    t.rows.flatMap (t.rowLines "│" ws) ++ [borderLine bottom ws]

end Table

end ExportLint.Terminal
