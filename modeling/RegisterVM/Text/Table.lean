/-!
# Tables of two columns

A table is drawn as lines of text: its titles, a rule, its rows, a rule. Cells
may have several lines, so that a table can stand in a cell of another one.

* A line is a space, the two cells with a bar between them, and a space.
* A cell is filled up to the width of its column, on the side away from its
  alignment, with one more space at either side. A cell with fewer lines than
  its neighbour goes on with blank ones.
* A column is as wide as its widest line, those of its title included.
* A rule spans the cells and crosses the bar. It stands also below a table
  without rows.

`Table.length_of_mem_lines` says that the lines of a table are all of one
length, so that a table fills a cell of another one.
-/

namespace RegisterVM

/-- The largest of the sizes of `items`, or zero if there are none. -/
def largest {α : Type} (size : α → Nat) (items : List α) : Nat :=
  items.foldr (fun item bound => max (size item) bound) 0

theorem le_largest {α : Type} (size : α → Nat) {items : List α} {item : α} (h : item ∈ items) :
    size item ≤ largest size items := by
  induction items with
  | nil => contradiction
  | cons head items ih =>
      cases h with
      | head => exact Nat.le_max_left _ _
      | tail _ later => exact Nat.le_trans (ih later) (Nat.le_max_right _ _)

/-- The side of its column on which the text of a cell stands. -/
inductive Align where
  | left
  | right
  deriving DecidableEq

/-- One cell of a table. -/
structure Cell where
  align : Align
  lines : List (List Char)

/-- The cells of both columns side by side. -/
structure Row where
  first : Cell
  second : Cell

/-- A table of two columns. -/
structure Table where
  titles : Row
  rows : List Row

/-- A cell of one line. -/
def Cell.line (align : Align) (text : List Char) : Cell :=
  ⟨align, [text]⟩

/-- The length of the longest line. -/
def Cell.width (cell : Cell) : Nat :=
  largest List.length cell.lines

/-- The line of the cell at `place`, filled up to `width` and padded. It is
blank below the last line. -/
def Cell.padded (cell : Cell) (width place : Nat) : List Char :=
  let text := (cell.lines[place]?).getD []
  let filled :=
    match cell.align with
    | .left => text.rightpad width ' '
    | .right => text.leftpad width ' '
  ' ' :: filled ++ [' ']

/-- The lines of a row whose columns have the given widths. -/
def Row.lines (row : Row) (width1 width2 : Nat) : List (List Char) :=
  (List.range (max row.first.lines.length row.second.lines.length)).map fun place =>
    ' ' :: row.first.padded width1 place ++ '│' :: row.second.padded width2 place ++ [' ']

namespace Table

/-- A rule below columns of the given widths, with `cross` where it meets the
bar. -/
def rule (cross : Char) (width1 width2 : Nat) : List Char :=
  ' ' :: List.replicate (width1 + 2) '─' ++ cross :: List.replicate (width2 + 2) '─' ++ [' ']

/-- The width of the first column. -/
def width1 (table : Table) : Nat :=
  largest (·.first.width) (table.titles :: table.rows)

/-- The width of the second column. -/
def width2 (table : Table) : Nat :=
  largest (·.second.width) (table.titles :: table.rows)

/-- The table as lines of text. -/
def lines (table : Table) : List (List Char) :=
  let width1 := table.width1
  let width2 := table.width2
  table.titles.lines width1 width2 ++ [rule '┼' width1 width2]
    ++ table.rows.flatMap (·.lines width1 width2) ++ [rule '┴' width1 width2]

end Table

/-! ## The lines of a table are all of one length -/

theorem Cell.length_padded {cell : Cell} {width : Nat} (fits : cell.width ≤ width) (place : Nat) :
    (cell.padded width place).length = width + 2 := by
  have short : ((cell.lines[place]?).getD []).length ≤ width := by
    cases there : cell.lines[place]? with
    | none => exact Nat.zero_le _
    | some line => exact Nat.le_trans (le_largest List.length (List.mem_of_getElem? there)) fits
  unfold padded
  cases cell.align <;> simp [List.leftpad, List.rightpad] <;> omega

theorem Row.length_of_mem_lines {row : Row} {width1 width2 : Nat} {line : List Char}
    (fits1 : row.first.width ≤ width1) (fits2 : row.second.width ≤ width2)
    (h : line ∈ row.lines width1 width2) : line.length = width1 + width2 + 7 := by
  obtain ⟨place, _, rfl⟩ := List.mem_map.mp h
  simp only [List.length_cons, List.length_append, List.length_nil, Cell.length_padded fits1,
    Cell.length_padded fits2]
  omega

theorem Table.length_rule (cross : Char) (width1 width2 : Nat) :
    (rule cross width1 width2).length = width1 + width2 + 7 := by
  simp only [rule, List.length_cons, List.length_append, List.length_replicate, List.length_nil]
  omega

/-- Every line of a table spans both columns with their padding, the bar and the
spaces at its ends. -/
theorem Table.length_of_mem_lines {table : Table} {line : List Char} (h : line ∈ table.lines) :
    line.length = table.width1 + table.width2 + 7 := by
  have ofRow {row : Row} (there : row ∈ table.titles :: table.rows)
      (h : line ∈ row.lines table.width1 table.width2) :
      line.length = table.width1 + table.width2 + 7 :=
    Row.length_of_mem_lines (le_largest (·.first.width) there) (le_largest (·.second.width) there) h
  simp only [lines, List.mem_append, List.mem_singleton, List.mem_flatMap] at h
  rcases h with ((title | rfl) | ⟨row, there, h⟩) | rfl
  · exact ofRow List.mem_cons_self title
  · exact length_rule _ _ _
  · exact ofRow (List.mem_cons_of_mem _ there) h
  · exact length_rule _ _ _

end RegisterVM
