import RegisterVM.Proofs.Text.Unambiguous
import RegisterVM.Text.Table

/-!
# What can be read off a table

The first rule of a table tells the widths of both columns, so that every line of it can
be cut into its cells. What stands in a cell can then be told from the blanks that fill
it up: in a cell of one line because the text does not end with a blank
(`rightpad_injective`), in a cell that holds a table because the lines of a table are all
as wide as the column and none of them is blank (`Cell.Fills.lines_eq`).

Tables with the same titles and the same lines therefore hold the same values
(`Table.values_eq_of_lines_eq`), or the same tables side by side
(`Table.lines_eq_of_sideBySide`).
-/

namespace RegisterVM

/-! ## Lines of a text -/

/-- Lines without line feeds, each ended by one, can be told apart. -/
theorem eq_of_flatMap_lineFeed {lines lines' : List (List Char)}
    (plain : ∀ line ∈ lines, '\n' ∉ line) (plain' : ∀ line ∈ lines', '\n' ∉ line)
    (same : lines.flatMap (· ++ ['\n']) = lines'.flatMap (· ++ ['\n'])) : lines = lines' := by
  have others {line : List Char} (none : '\n' ∉ line) : ∀ c ∈ line, (c != '\n') = true := by
    intro c there
    simp only [bne_iff_ne]
    rintro rfl
    exact none there
  induction lines generalizing lines' with
  | nil =>
      cases lines' with
      | nil => rfl
      | cons line' lines' => simp at same
  | cons line lines ih =>
      cases lines' with
      | nil => simp at same
      | cons line' lines' =>
          obtain ⟨none, plain⟩ := List.forall_mem_cons.mp plain
          obtain ⟨none', plain'⟩ := List.forall_mem_cons.mp plain'
          simp only [List.flatMap_cons, List.append_assoc, List.singleton_append] at same
          obtain ⟨first, rest⟩ := eq_and_eq_of_append same (others none) (others none')
            (breaks_cons (by decide) _) (breaks_cons (by decide) _)
          rw [first, ih plain plain' (List.cons.inj rest).2]

/-! ## Tables without line feeds -/

/-- No line of the cell holds a line feed. -/
def Cell.Plain (cell : Cell) : Prop :=
  ∀ line ∈ cell.lines, '\n' ∉ line

/-- No line of either cell holds a line feed. -/
def Row.Plain (row : Row) : Prop :=
  row.first.Plain ∧ row.second.Plain

theorem Cell.plain_line {align : Align} {text : List Char} (none : '\n' ∉ text) :
    (Cell.line align text).Plain := by
  intro line there
  rwa [List.mem_singleton.mp there]

theorem Cell.Plain.padded {cell : Cell} (plain : cell.Plain) (width place : Nat) :
    '\n' ∉ cell.padded width place := by
  have text : '\n' ∉ (cell.lines[place]?).getD [] := by
    cases there : cell.lines[place]? with
    | none => exact List.not_mem_nil
    | some line => exact plain line (List.mem_of_getElem? there)
  unfold Cell.padded
  cases cell.align with
  | left => simp [List.rightpad, text]
  | right => simp [List.leftpad, text]

theorem Row.Plain.lines {row : Row} (plain : row.Plain) {width1 width2 : Nat} {line : List Char}
    (there : line ∈ row.lines width1 width2) : '\n' ∉ line := by
  obtain ⟨place, _, rfl⟩ := List.mem_map.mp there
  have first := plain.1.padded width1 place
  have second := plain.2.padded width2 place
  simp [first, second]

theorem Table.plain_lines {table : Table} (plain : ∀ row ∈ table.titles :: table.rows, row.Plain)
    {line : List Char} (there : line ∈ table.lines) : '\n' ∉ line := by
  simp only [lines, List.mem_append, List.mem_singleton, List.mem_flatMap] at there
  rcases there with ((title | rfl) | ⟨row, listed, row'⟩) | rfl
  · exact (plain _ List.mem_cons_self).lines title
  · simp [rule]
  · exact (plain row (List.mem_cons_of_mem _ listed)).lines row'
  · simp [rule]

/-! ## Cutting lines into cells -/

theorem beq_of_mem_replicate (filler : Char) (count : Nat) :
    ∀ c ∈ List.replicate count filler, (c == filler) = true :=
  fun _ there => beq_iff_eq.mpr (List.eq_of_mem_replicate there)

/-- A rule tells the widths of both columns. -/
theorem Table.rule_injective {cross : Char} (other : cross ≠ '─')
    {width1 width2 width1' width2' : Nat}
    (same : rule cross width1 width2 = rule cross width1' width2') :
    width1 = width1' ∧ width2 = width2' := by
  simp only [rule, List.cons_append, List.append_assoc, List.cons.injEq, true_and] at same
  have ends (text : List Char) : Breaks (· == '─') (cross :: text) := by
    refine breaks_cons ?_ text
    exact beq_eq_false_iff_ne.mpr other
  obtain ⟨first, rest⟩ := eq_and_eq_of_append same (beq_of_mem_replicate '─' _)
    (beq_of_mem_replicate '─' _) (ends _) (ends _)
  have second := List.append_cancel_right (List.cons.inj rest).2
  have length1 := congrArg List.length first
  have length2 := congrArg List.length second
  simp only [List.length_replicate] at length1 length2
  omega

/-- Tables with the same titles and the same lines have columns of the same widths, and the same
lines in their rows. -/
theorem Table.rows_eq_of_lines_eq {table table' : Table} (titles : table.titles = table'.titles)
    (same : table.lines = table'.lines) :
    table.width1 = table'.width1 ∧ table.width2 = table'.width2
      ∧ table.rows.flatMap (·.lines table.width1 table.width2)
        = table'.rows.flatMap (·.lines table.width1 table.width2) := by
  simp only [lines, titles, List.append_assoc] at same
  obtain ⟨-, same⟩ := List.append_inj same (by simp only [Row.lines, List.length_map])
  obtain ⟨rules, body⟩ := List.cons.inj same
  obtain ⟨width1, width2⟩ := rule_injective (by decide) rules
  refine ⟨width1, width2, ?_⟩
  rw [width1, width2] at body ⊢
  exact List.append_cancel_right body

/-- Rows with the same lines have as many of them, and the same cells in each. -/
theorem Row.padded_eq_of_lines_eq {row row' : Row} {width1 width2 : Nat}
    (fits : row.first.width ≤ width1) (fits' : row'.first.width ≤ width1)
    (same : row.lines width1 width2 = row'.lines width1 width2) :
    max row.first.lines.length row.second.lines.length
        = max row'.first.lines.length row'.second.lines.length
      ∧ ∀ place < max row.first.lines.length row.second.lines.length,
        row.first.padded width1 place = row'.first.padded width1 place
          ∧ row.second.padded width2 place = row'.second.padded width2 place := by
  have count := congrArg List.length same
  simp only [lines, List.length_map, List.length_range] at count
  refine ⟨count, fun place inside => ?_⟩
  rw [lines, lines, ← count] at same
  have line := List.map_inj_left.mp same place (List.mem_range.mpr inside)
  simp only [List.cons_append, List.append_assoc, List.cons.injEq, true_and] at line
  obtain ⟨first, rest⟩ := List.append_inj line
    (by rw [Cell.length_padded fits, Cell.length_padded fits'])
  exact ⟨first, List.append_cancel_right (List.cons.inj rest).2⟩

/-! ## Cells that hold tables -/

/-- Every line of the cell is as long as the column is wide, and none is blank. -/
def Cell.Fills (cell : Cell) (width : Nat) : Prop :=
  ∀ line ∈ cell.lines, line.length = width ∧ ∃ c ∈ line, c ≠ ' '

theorem Cell.padded_of_none {cell : Cell} {width place : Nat} (none : cell.lines[place]? = none) :
    cell.padded width place = ' ' :: List.replicate width ' ' ++ [' '] := by
  unfold padded
  rw [none]
  cases cell.align with
  | left => simp [List.rightpad]
  | right => simp [List.leftpad]

namespace Cell.Fills

variable {cell cell' : Cell} {width : Nat}

theorem padded_of_some (fills : cell.Fills width) {place : Nat} {line : List Char}
    (there : cell.lines[place]? = some line) : cell.padded width place = ' ' :: line ++ [' '] := by
  have length := (fills line (List.mem_of_getElem? there)).1
  unfold padded
  rw [there]
  cases cell.align with
  | left => simp [List.rightpad, length]
  | right => simp [List.leftpad, length]

/-- A line is told from the blanks below the last line. -/
theorem padded_ne_of_none (fills : cell.Fills width) {place : Nat} {line : List Char}
    (there : cell.lines[place]? = some line) (none : cell'.lines[place]? = none) :
    cell.padded width place ≠ cell'.padded width place := by
  intro same
  rw [fills.padded_of_some there, padded_of_none none] at same
  have blank : line = List.replicate width ' ' :=
    List.append_cancel_right (List.cons.inj same).2
  obtain ⟨c, inside, visible⟩ := (fills line (List.mem_of_getElem? there)).2
  rw [blank] at inside
  exact visible (List.eq_of_mem_replicate inside)

theorem lines_eq (fills : cell.Fills width) (fills' : cell'.Fills width) {count : Nat}
    (few : cell.lines.length ≤ count) (few' : cell'.lines.length ≤ count)
    (same : ∀ place < count, cell.padded width place = cell'.padded width place) :
    cell.lines = cell'.lines := by
  apply List.ext_getElem?
  intro place
  by_cases inside : place < count
  · have padded := same place inside
    cases there : cell.lines[place]? with
    | none =>
        cases there' : cell'.lines[place]? with
        | none => rfl
        | some line' => exact absurd padded.symm (fills'.padded_ne_of_none there' there)
    | some line =>
        cases there' : cell'.lines[place]? with
        | none => exact absurd padded (fills.padded_ne_of_none there there')
        | some line' =>
            rw [fills.padded_of_some there, fills'.padded_of_some there'] at padded
            rw [List.append_cancel_right (List.cons.inj padded).2]
  · rw [List.getElem?_eq_none (by omega), List.getElem?_eq_none (by omega)]

end Cell.Fills

/-! ## Tables side by side -/

/-- The length of the lines of the table. -/
def Table.lineLength (table : Table) : Nat :=
  table.width1 + table.width2 + 7

/-- The lines of a table fill the cell of another one. -/
theorem Table.lines_fill (table : Table) : (Cell.mk .left table.lines).Fills table.lineLength := by
  intro line there
  refine ⟨length_of_mem_lines there, ?_⟩
  have bar {row : Row} (there : line ∈ row.lines table.width1 table.width2) :
      ∃ c ∈ line, c ≠ ' ' := by
    obtain ⟨place, _, rfl⟩ := List.mem_map.mp there
    exact ⟨'│', by simp, by decide⟩
  simp only [lines, List.mem_append, List.mem_singleton, List.mem_flatMap] at there
  rcases there with ((title | rfl) | ⟨row, _, listed⟩) | rfl
  · exact bar title
  · exact ⟨'┼', by simp [rule], by decide⟩
  · exact bar listed
  · exact ⟨'┴', by simp [rule], by decide⟩

theorem largest_le {α : Type} {size : α → Nat} {items : List α} {bound : Nat}
    (all : ∀ item ∈ items, size item ≤ bound) : largest size items ≤ bound := by
  induction items with
  | nil => exact Nat.zero_le _
  | cons item items ih =>
      exact Nat.max_le.mpr ⟨all item List.mem_cons_self,
        ih fun item there => all item (List.mem_cons_of_mem _ there)⟩

/-- A cell that holds a table is as wide as the lines of the table are long. -/
theorem Table.width_cell (table : Table) :
    (Cell.mk .left table.lines).width = table.lineLength := by
  apply Nat.le_antisymm
  · exact largest_le fun line there => Nat.le_of_eq (length_of_mem_lines there)
  · have last : rule '┴' table.width1 table.width2 ∈ table.lines :=
      List.mem_append_right _ List.mem_cons_self
    have length : (rule '┴' table.width1 table.width2).length = table.lineLength :=
      length_rule '┴' table.width1 table.width2
    rw [← length]
    exact le_largest List.length last

/-- Two tables side by side, below a title each. -/
def Table.sideBySide (titles : Row) (left right : Table) : Table where
  titles := titles
  rows := [⟨⟨.left, left.lines⟩, ⟨.left, right.lines⟩⟩]

/-- The titles are no longer than the lines of the tables below them. -/
def Table.Covers (titles : Row) (left right : Table) : Prop :=
  titles.first.width ≤ left.lineLength ∧ titles.second.width ≤ right.lineLength

section

variable {titles : Row} {left right left' right' : Table}

theorem Table.Covers.widths (covers : Covers titles left right) :
    (sideBySide titles left right).width1 = left.lineLength
      ∧ (sideBySide titles left right).width2 = right.lineLength := by
  constructor
  · show max titles.first.width (max (Cell.mk .left left.lines).width 0) = _
    rw [width_cell, Nat.max_zero, Nat.max_eq_right covers.1]
  · show max titles.second.width (max (Cell.mk .left right.lines).width 0) = _
    rw [width_cell, Nat.max_zero, Nat.max_eq_right covers.2]

/-- Tables side by side can be told apart, if the lines of them fill their columns. -/
theorem Table.lines_eq_of_sideBySide (covers : Covers titles left right)
    (covers' : Covers titles left' right')
    (same : (sideBySide titles left right).lines = (sideBySide titles left' right').lines) :
    left.lines = left'.lines ∧ right.lines = right'.lines := by
  have sameTitles :
      (sideBySide titles left right).titles = (sideBySide titles left' right').titles := rfl
  obtain ⟨sameWidth1, sameWidth2, body⟩ := rows_eq_of_lines_eq sameTitles same
  rw [covers.widths.1, covers'.widths.1] at sameWidth1
  rw [covers.widths.2, covers'.widths.2] at sameWidth2
  rw [covers.widths.1, covers.widths.2] at body
  simp only [sideBySide, List.flatMap_cons, List.flatMap_nil, List.append_nil] at body
  have fits : (Cell.mk .left left.lines).width ≤ left.lineLength := Nat.le_of_eq left.width_cell
  have fits' : (Cell.mk .left left'.lines).width ≤ left.lineLength :=
    Nat.le_of_eq (left'.width_cell.trans sameWidth1.symm)
  obtain ⟨count, cells⟩ := Row.padded_eq_of_lines_eq fits fits' body
  constructor
  · refine left.lines_fill.lines_eq (sameWidth1 ▸ left'.lines_fill) (Nat.le_max_left _ _) ?_
      fun place inside => (cells place inside).1
    rw [count]
    exact Nat.le_max_left _ _
  · refine right.lines_fill.lines_eq (sameWidth2 ▸ right'.lines_fill) (Nat.le_max_right _ _) ?_
      fun place inside => (cells place inside).2
    rw [count]
    exact Nat.le_max_right _ _

end

/-! ## Tables of values -/

/-- The text does not end with a blank. -/
abbrev Trimmed (text : List Char) : Prop :=
  Breaks (· == ' ') text.reverse

/-- A text that ends with something to be seen can be told from the blanks behind it. -/
theorem rightpad_injective {text text' : List Char} {width : Nat} (ends : Trimmed text)
    (ends' : Trimmed text') (same : text.rightpad width ' ' = text'.rightpad width ' ') :
    text = text' := by
  have turned := congrArg List.reverse same
  simp only [List.rightpad, List.reverse_append, List.reverse_replicate] at turned
  obtain ⟨-, texts⟩ := eq_and_eq_of_append turned (beq_of_mem_replicate ' ' _)
    (beq_of_mem_replicate ' ' _) ends ends'
  exact List.reverse_inj.mp texts

/-- The row has one line, and its second cell a text that stands on the left and does not end with
a blank. -/
structure Row.OfValue (row : Row) : Prop where
  single : row.first.lines.length = 1
  value : ∃ text, row.second = .line .left text ∧ Trimmed text

namespace Row.OfValue

variable {row row' : Row} {width1 width2 : Nat}

theorem length_lines (ofValue : row.OfValue) (width1 width2 : Nat) :
    (row.lines width1 width2).length = 1 := by
  obtain ⟨single, text, value, -⟩ := ofValue
  rw [lines, List.length_map, List.length_range, single, value]
  rfl

theorem lines_ne_nil (ofValue : row.OfValue) : row.lines width1 width2 ≠ [] := by
  intro none
  have one := ofValue.length_lines width1 width2
  rw [none] at one
  exact absurd one (by decide)

theorem second_eq (ofValue : row.OfValue) (ofValue' : row'.OfValue)
    (fits : row.first.width ≤ width1) (fits' : row'.first.width ≤ width1)
    (same : row.lines width1 width2 = row'.lines width1 width2) : row.second = row'.second := by
  obtain ⟨single, text, value, ends⟩ := ofValue
  obtain ⟨-, text', value', ends'⟩ := ofValue'
  obtain ⟨-, cells⟩ := Row.padded_eq_of_lines_eq fits fits' same
  have padded := (cells 0 (by rw [single]; omega)).2
  rw [value, value'] at padded ⊢
  have filled : text.rightpad width2 ' ' = text'.rightpad width2 ' ' :=
    List.append_cancel_right (List.cons.inj padded).2
  rw [rightpad_injective ends ends' filled]

end Row.OfValue

/-- Rows of values are told apart one by one. -/
theorem map_second_eq_of_lines_eq {rows rows' : List Row} {width1 width2 : Nat}
    (ofValue : ∀ row ∈ rows, row.OfValue) (ofValue' : ∀ row ∈ rows', row.OfValue)
    (fits : ∀ row ∈ rows, row.first.width ≤ width1)
    (fits' : ∀ row ∈ rows', row.first.width ≤ width1)
    (same : rows.flatMap (·.lines width1 width2) = rows'.flatMap (·.lines width1 width2)) :
    rows.map (·.second) = rows'.map (·.second) := by
  induction rows generalizing rows' with
  | nil =>
      cases rows' with
      | nil => rfl
      | cons row' rows' =>
          have none := List.flatMap_eq_nil_iff.mp same.symm row' List.mem_cons_self
          exact absurd none (ofValue' row' List.mem_cons_self).lines_ne_nil
  | cons row rows ih =>
      cases rows' with
      | nil =>
          have none := List.flatMap_eq_nil_iff.mp same row List.mem_cons_self
          exact absurd none (ofValue row List.mem_cons_self).lines_ne_nil
      | cons row' rows' =>
          obtain ⟨value, ofValue⟩ := List.forall_mem_cons.mp ofValue
          obtain ⟨value', ofValue'⟩ := List.forall_mem_cons.mp ofValue'
          obtain ⟨fit, fits⟩ := List.forall_mem_cons.mp fits
          obtain ⟨fit', fits'⟩ := List.forall_mem_cons.mp fits'
          have one := value.length_lines width1 width2
          have one' := value'.length_lines width1 width2
          rw [List.flatMap_cons, List.flatMap_cons] at same
          obtain ⟨first, rest⟩ := List.append_inj same (by rw [one, one'])
          rw [List.map_cons, List.map_cons, value.second_eq value' fit fit' first,
            ih ofValue ofValue' fits fits' rest]

/-- Tables of values with the same titles and the same lines hold the same values. -/
theorem Table.values_eq_of_lines_eq {table table' : Table} (titles : table.titles = table'.titles)
    (ofValue : ∀ row ∈ table.rows, row.OfValue) (ofValue' : ∀ row ∈ table'.rows, row.OfValue)
    (same : table.lines = table'.lines) :
    table.rows.map (·.second) = table'.rows.map (·.second) := by
  obtain ⟨sameWidth1, -, body⟩ := rows_eq_of_lines_eq titles same
  have fits (table : Table) : ∀ row ∈ table.rows, row.first.width ≤ table.width1 :=
    fun _ there => le_largest (·.first.width) (List.mem_cons_of_mem _ there)
  exact map_second_eq_of_lines_eq ofValue ofValue' (fits table) (sameWidth1 ▸ fits table') body

end RegisterVM
