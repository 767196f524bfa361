import ManifestSync.Text.Blank
import ManifestSync.Text.Width

/-!
# Tables

A table is drawn with box characters: a heading, and below it rows with a dashed rule between any
two. A cell may hold line breaks; its row is then as high as its highest cell. Every column is as
wide as its widest line.
-/

namespace ManifestSync

/-- A cell as its lines. -/
abbrev Cell := List (List Char)

/-- The cell that shows a text. -/
def Cell.ofText (text : String) : Cell := Text.splitOn (· == '\n') text.toList

/-- The width of the widest line of a cell. -/
def Cell.width (cell : Cell) : Nat := (cell.map Text.width).foldl max 0

/-- The characters that draw a horizontal rule. -/
structure Rule where
  left : Char
  fill : Char
  crossing : Char
  right : Char

namespace Rule

/-- The rule above the heading. -/
def top : Rule := ⟨'┌', '─', '┬', '┐'⟩

/-- The rule below the heading. -/
def heading : Rule := ⟨'╞', '═', '╪', '╡'⟩

/-- The rule between two rows. -/
def between : Rule := ⟨'├', '╌', '┼', '┤'⟩

/-- The rule below the last row. -/
def bottom : Rule := ⟨'└', '─', '┴', '┘'⟩

/-- A rule over columns of some widths, with a blank on both sides of each. -/
def draw (rule : Rule) (widths : List Nat) : List Char :=
  rule.left :: Text.joinWith [rule.crossing]
    (widths.map fun w => List.replicate (w + 2) rule.fill) ++ [rule.right]

end Rule

/-- A line of a cell, filled up to the width of its column, with a blank on both sides. -/
def drawCellLine (width : Nat) (line : List Char) : List Char :=
  ' ' :: line ++ List.replicate (width - Text.width line) ' ' ++ [' ']

/-- The line with a number in each cell of a row. -/
def drawLine (widths : List Nat) (row : List Cell) (number : Nat) : List Char :=
  '│' :: Text.joinWith ['┆'] (List.zipWith (fun width (cell : Cell) =>
    drawCellLine width (cell[number]?.getD [])) widths row) ++ ['│']

/-- The lines of a row. -/
def drawRow (widths : List Nat) (row : List Cell) : List (List Char) :=
  (List.range ((row.map List.length).foldl max 0)).map (drawLine widths row)

/-- The widths of the columns of some rows. -/
def columnWidths (heading : List Cell) (rows : List (List Cell)) : List Nat :=
  rows.foldl (fun widths row => List.zipWith max widths (row.map Cell.width))
    (heading.map Cell.width)

/-- The lines of a table with a heading and some rows. -/
def tableLines (heading : List Cell) (rows : List (List Cell)) : List (List Char) :=
  let widths := columnWidths heading rows
  let body := ((rows.map (drawRow widths)).intersperse [Rule.between.draw widths]).flatten
  [Rule.top.draw widths] ++ drawRow widths heading ++ [Rule.heading.draw widths] ++ body
    ++ [Rule.bottom.draw widths]

/-- A table with a heading and some rows, every line ended. -/
def drawTable (heading : List String) (rows : List (List String)) : List Char :=
  (tableLines (heading.map .ofText) (rows.map (·.map .ofText))).flatMap (· ++ ['\n'])

end ManifestSync
