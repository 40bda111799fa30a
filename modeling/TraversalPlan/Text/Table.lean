import TraversalPlan.Text.Width

/-!
# Boxed tables

* `Table.render`: a header and rows in a box. A column is as wide as its widest line, and every cell
  has a blank on both sides.
-/

namespace TraversalPlan.Table

/-- The lines of a cell. -/
def lines (cell : String) : List String := (cell.toList.splitOn '\n').map String.ofList

/-- The width of a cell is that of its widest line. -/
def cellWidth (cell : String) : Nat := ((lines cell).map Width.ofText).foldl max 0

/-- The widths of the columns. -/
def columnWidths (header : List String) (rows : List (List String)) : List Nat :=
  header.zipIdx.map fun (h, i) =>
    rows.foldl (fun w row => max w (cellWidth (row.getD i ""))) (cellWidth h)

def repeated (n : Nat) (s : String) : String := String.join (List.replicate n s)

/-- A border: its left end, what it is drawn with, its crossings and its right end. -/
def border (widths : List Nat) (left line crossing right : String) : String :=
  left ++ crossing.intercalate (widths.map fun w => repeated (w + 2) line) ++ right

/-- A line of text padded to a width. -/
def pad (w : Nat) (line : String) : String := " " ++ line ++ repeated (w - Width.ofText line) " " ++ " "

/-- The lines of a row. -/
def rowLines (widths : List Nat) (row : List String) : List String :=
  let cells := row.map lines
  let height := (cells.map List.length).foldl max 0
  (List.range height).map fun k =>
    "│" ++ "┆".intercalate (widths.zipIdx.map fun (w, i) => pad w ((cells.getD i []).getD k "")) ++
      "│"

def render (header : List String) (rows : List (List String)) : String :=
  let widths := columnWidths header rows
  "\n".intercalate
    ([border widths "┌" "─" "┬" "┐"] ++ rowLines widths header ++
      [border widths "╞" "═" "╪" "╡"] ++ rows.flatMap (rowLines widths) ++
      [border widths "└" "─" "┴" "┘"])

end TraversalPlan.Table
