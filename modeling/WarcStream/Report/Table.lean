import WarcStream.Text.Columns
/-!
# Tables

A table is drawn with box characters. A column is as wide as the widest line
of its cells, a line feed in a cell starts another line, and every line has
one blank on either side.
-/

namespace WarcStream.Report

/-- A table. -/
structure Table where
  header : List String
  rows : List (List String)
  deriving DecidableEq, Repr

/-- The lines of a text, cut at line feeds. -/
def linesOf : List Char → List (List Char)
  | [] => [[]]
  | '\n' :: rest => [] :: linesOf rest
  | c :: rest =>
    match linesOf rest with
    | line :: lines => (c :: line) :: lines
    | [] => [[c]]

/-- The columns of a cell's widest line. -/
def cellWidth (cell : String) : Nat :=
  ((linesOf cell.toList).map Text.lineWidth).foldl max 0

/-- Characters between the cells of a row and around them. -/
structure Rule where
  left : Char
  fill : Char
  cross : Char
  right : Char

/-- Above the header. -/
def topRule : Rule := ⟨'┌', '─', '┬', '┐'⟩
/-- Below the header. -/
def headerRule : Rule := ⟨'╞', '═', '╪', '╡'⟩
/-- Between rows. -/
def rowRule : Rule := ⟨'├', '╌', '┼', '┤'⟩
/-- Below the last row. -/
def bottomRule : Rule := ⟨'└', '─', '┴', '┘'⟩

/-- Pieces with a character between each two. -/
def joinWith (separator : Char) : List (List Char) → List Char
  | [] => []
  | [piece] => piece
  | piece :: rest => piece ++ separator :: joinWith separator rest

/-- A rule across the table. -/
def Rule.draw (r : Rule) (widths : List Nat) : List Char :=
  r.left :: (joinWith r.cross (widths.map fun w => List.replicate (w + 2) r.fill) ++ [r.right])

/-- A line of a cell, filled up to its column. -/
def padLine (width : Nat) (line : List Char) : List Char :=
  ' ' :: (line ++ List.replicate (width - Text.lineWidth line) ' ' ++ [' '])

/-- The lines that a row takes. -/
def rowLines (widths : List Nat) (cells : List String) : List (List Char) :=
  let columns := cells.map fun cell => linesOf cell.toList
  let height := (columns.map List.length).foldl max 0
  (List.range height).map fun i =>
    let parts := List.zipWith (fun width lines => padLine width (lines.getD i [])) widths columns
    '│' :: (joinWith '┆' parts ++ ['│'])

namespace Table

/-- The widths of the columns. -/
def widths (t : Table) : List Nat :=
  t.rows.foldl (fun widths row => List.zipWith max widths (row.map cellWidth))
    (t.header.map cellWidth)

/-- The lines below the header. -/
def bodyLines (widths : List Nat) : List (List String) → List (List Char)
  | [] => []
  | [row] => rowLines widths row
  | row :: rest => rowLines widths row ++ rowRule.draw widths :: bodyLines widths rest

/-- The lines of the table. -/
def lines (t : Table) : List (List Char) :=
  let widths := t.widths
  topRule.draw widths :: (rowLines widths t.header ++ headerRule.draw widths ::
    (bodyLines widths t.rows ++ [bottomRule.draw widths]))

/-- The table as text, each line with its line feed. -/
def render (t : Table) : String := String.ofList (t.lines.flatMap fun line => line ++ ['\n'])

end Table

end WarcStream.Report
