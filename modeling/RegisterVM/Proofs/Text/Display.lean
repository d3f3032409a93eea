import RegisterVM.Proofs.Machine.StackWindow
import RegisterVM.Proofs.Text.Layout
import RegisterVM.Proofs.Text.Numerals

/-!
# What a display tells of a machine

A display is read from the outside in: its lines, which hold no line feeds
(`Machine.plain_lines`), the headline and the two tables side by side, the contents of
their rows, and the numbers in these. Each step can be undone, whatever the widths of the
columns and the number of rows. Two machines therefore have one display exactly if they
agree in what it is made of (`Machine.text_eq_iff_shownAlike`).
-/

namespace RegisterVM

/-- Displays show the same of both machines: the instruction pointer, the size of memory, the
registers, and the quads of those slots of the stack that lie inside memory. -/
structure Machine.ShownAlike (machine other : Machine) : Prop where
  ip : machine.ip = other.ip
  size : machine.memory.size = other.memory.size
  registers : ∀ register, machine.register register = other.register register
  quads : ∀ slot < 4, machine.slotAddress slot + 8 ≤ machine.memory.size →
    machine.memory.quadAt (machine.slotAddress slot)
      = other.memory.quadAt (other.slotAddress slot)

/-! ## Contents of rows -/

/-- A text that ends with a number does not end with a blank. -/
theorem trimmed_append (front : List Char) {number : List Char} (some : number ≠ [])
    (spelled : ∀ c ∈ number, c.isAlphanum = true) : Trimmed (front ++ number) := by
  intro last there
  obtain ⟨c, rest, turned⟩ := List.exists_cons_of_ne_nil (List.reverse_ne_nil_iff.mpr some)
  rw [List.reverse_append, turned] at there
  obtain rfl := Option.some.inj there
  have letter := spelled c (List.mem_reverse.mp (turned ▸ List.mem_cons_self))
  rw [beq_eq_false_iff_ne]
  rintro rfl
  exact absurd letter (by decide)

theorem lineFeed_not_mem {text : List Char} (spelled : ∀ c ∈ text, c.isAlphanum = true) :
    '\n' ∉ text := by
  intro there
  exact absurd (spelled _ there) (by decide)

namespace Machine

variable {machine other : Machine}

theorem quadText_injective {value value' : UInt64} (same : quadText value = quadText value') :
    value = value' :=
  UInt64.toNat.inj (Numeral.hexPadded_injective same)

theorem trimmed_quadText (front : List Char) (value : UInt64) :
    Trimmed (front ++ quadText value) :=
  trimmed_append front (List.cons_ne_nil _ _) Numeral.isAlphanum_of_mem_hexPadded

/-- What a row of the stack shows of a slot: its address and its quad. -/
def slotText (slot : UInt64 × UInt64) : List Char :=
  '[' :: Numeral.hex slot.1.toNat ++ ']' :: ' ' :: quadText slot.2

theorem slotText_injective {slot slot' : UInt64 × UInt64} (same : slotText slot = slotText slot') :
    slot = slot' := by
  obtain ⟨address, rest⟩ := Numeral.hex_append_injective (List.cons.inj same).2
    (breaks_cons (by decide) _) (breaks_cons (by decide) _)
  exact Prod.ext (UInt64.toNat.inj address)
    (quadText_injective (List.cons.inj (List.cons.inj rest).2).2)

theorem trimmed_slotText (slot : UInt64 × UInt64) : Trimmed (slotText slot) := by
  have last := trimmed_quadText ('[' :: Numeral.hex slot.1.toNat ++ [']', ' ']) slot.2
  rwa [List.append_assoc] at last

/-! ## The tables -/

theorem rows_stackTable_mapIdx (machine : Machine) :
    machine.stackTable.rows = machine.stackWindow.mapIdx fun place slot =>
      valueRow ("SP+".toList ++ Numeral.decimal place) (slotText slot) :=
  rfl

theorem ofValue_registerTable (machine : Machine) :
    ∀ row ∈ machine.registerTable.rows, row.OfValue := by
  intro row there
  obtain ⟨register, -, rfl⟩ := List.mem_map.mp there
  exact ⟨rfl, _, rfl, trimmed_quadText [] _⟩

theorem ofValue_stackTable (machine : Machine) :
    ∀ row ∈ machine.stackTable.rows, row.OfValue := by
  intro row there
  rw [rows_stackTable_mapIdx] at there
  obtain ⟨place, inside, rfl⟩ := List.mem_mapIdx.mp there
  exact ⟨rfl, _, rfl, trimmed_slotText _⟩

/-- The lines of the table of registers tell what each of them holds. -/
theorem register_eq_of_lines_eq (same : machine.registerTable.lines = other.registerTable.lines)
    (register : Register) : machine.register register = other.register register := by
  have titles : machine.registerTable.titles = other.registerTable.titles := rfl
  have values := Table.values_eq_of_lines_eq titles machine.ofValue_registerTable
    other.ofValue_registerTable same
  unfold registerTable at values
  rw [List.map_map, List.map_map] at values
  have listed : register ∈ Register.all := by cases register <;> decide
  have cell := List.map_inj_left.mp values register listed
  exact quadText_injective (List.singleton_inj.mp (Cell.mk.inj cell).2)

/-- The lines of the table of the stack tell which slots it shows, and their quads. -/
theorem stackWindow_eq_of_lines_eq (same : machine.stackTable.lines = other.stackTable.lines) :
    machine.stackWindow = other.stackWindow := by
  have titles : machine.stackTable.titles = other.stackTable.titles := rfl
  have values := Table.values_eq_of_lines_eq titles machine.ofValue_stackTable
    other.ofValue_stackTable same
  have cells (machine : Machine) : machine.stackTable.rows.map (·.second)
      = machine.stackWindow.map fun slot => .line .left (slotText slot) := by
    apply List.ext_getElem
    · simp [rows_stackTable_mapIdx]
    · intro place _ _
      simp [rows_stackTable_mapIdx, valueRow]
  rw [cells, cells] at values
  refine (List.map_inj_right fun slot slot' sameCell => ?_).mp values
  exact slotText_injective (List.singleton_inj.mp (Cell.mk.inj sameCell).2)

/-! ## The headline -/

theorem headline_eq (machine : Machine) :
    machine.headline
      = "IP: ".toList ++ (Numeral.hex machine.ip.toNat ++ ('\t' :: "Memory: ".toList
        ++ (Numeral.decimal machine.memory.size ++ " bytes".toList))) := by
  unfold headline
  rw [List.append_assoc, List.append_assoc, List.append_assoc]

theorem headline_injective (same : machine.headline = other.headline) :
    machine.ip = other.ip ∧ machine.memory.size = other.memory.size := by
  rw [headline_eq, headline_eq] at same
  obtain ⟨ip, rest⟩ := Numeral.hex_append_injective (List.append_cancel_left same)
    (breaks_cons (by decide) _) (breaks_cons (by decide) _)
  obtain ⟨size, -⟩ := Numeral.decimal_append_injective (List.append_cancel_left rest)
    (breaks_cons (show ' '.isDigit = false by decide) "bytes".toList)
    (breaks_cons (show ' '.isDigit = false by decide) "bytes".toList)
  exact ⟨UInt64.toNat.inj ip, size⟩

/-! ## The lines -/

theorem plain_headline (machine : Machine) : '\n' ∉ machine.headline := by
  have ip : '\n' ∉ Numeral.hex machine.ip.toNat := lineFeed_not_mem Numeral.isAlphanum_of_mem_hex
  have size : '\n' ∉ Numeral.decimal machine.memory.size :=
    lineFeed_not_mem Numeral.isAlphanum_of_mem_decimal
  rw [headline_eq, List.mem_append, List.mem_append, List.mem_append, List.mem_append]
  rintro (label | found | label | found | label)
  · exact absurd label (by decide)
  · exact ip found
  · exact absurd label (by decide)
  · exact size found
  · exact absurd label (by decide)

theorem plain_valueRow {label contents : List Char} (plainLabel : '\n' ∉ label)
    (plainContents : '\n' ∉ contents) : (valueRow label contents).Plain :=
  ⟨Cell.plain_line (by simp [plainLabel]), Cell.plain_line plainContents⟩

theorem plain_valueTitles : valueTitles.Plain :=
  ⟨Cell.plain_line (by decide), Cell.plain_line (by decide)⟩

theorem plain_quadText (value : UInt64) : '\n' ∉ quadText value :=
  lineFeed_not_mem Numeral.isAlphanum_of_mem_hexPadded

theorem plain_registerTable (machine : Machine) :
    ∀ line ∈ machine.registerTable.lines, '\n' ∉ line := by
  refine fun line => Table.plain_lines fun row there => ?_
  rcases List.mem_cons.mp there with rfl | there
  · exact plain_valueTitles
  · obtain ⟨register, -, rfl⟩ := List.mem_map.mp there
    exact plain_valueRow (by cases register <;> decide) (plain_quadText _)

theorem plain_stackTable (machine : Machine) :
    ∀ line ∈ machine.stackTable.lines, '\n' ∉ line := by
  refine fun line => Table.plain_lines fun row there => ?_
  rcases List.mem_cons.mp there with rfl | there
  · exact plain_valueTitles
  · rw [rows_stackTable_mapIdx] at there
    obtain ⟨place, inside, rfl⟩ := List.mem_mapIdx.mp there
    have label : '\n' ∉ Numeral.decimal place :=
      lineFeed_not_mem Numeral.isAlphanum_of_mem_decimal
    have address : '\n' ∉ Numeral.hex machine.stackWindow[place].1.toNat :=
      lineFeed_not_mem Numeral.isAlphanum_of_mem_hex
    exact plain_valueRow (by simp [label]) (by simp [slotText, address, plain_quadText])

theorem plain_stateTable (machine : Machine) :
    ∀ line ∈ machine.stateTable.lines, '\n' ∉ line := by
  refine fun line => Table.plain_lines fun row there => ?_
  rcases List.mem_cons.mp there with rfl | there
  · exact ⟨Cell.plain_line (by decide), Cell.plain_line (by decide)⟩
  · rw [List.mem_singleton.mp there]
    exact ⟨machine.plain_registerTable, machine.plain_stackTable⟩

theorem stateTable_eq_sideBySide (machine : Machine) :
    machine.stateTable
      = .sideBySide machine.stateTable.titles machine.registerTable machine.stackTable :=
  rfl

/-- The titles of a table of values keep its lines from being short. -/
theorem le_lineLength {table : Table} (titles : table.titles = valueTitles) :
    22 ≤ table.lineLength := by
  have first : valueTitles.first.width ≤ table.width1 :=
    titles ▸ le_largest (fun row : Row => row.first.width) List.mem_cons_self
  have second : valueTitles.second.width ≤ table.width2 :=
    titles ▸ le_largest (fun row : Row => row.second.width) List.mem_cons_self
  have seven : valueTitles.first.width = 7 := rfl
  have eight : valueTitles.second.width = 8 := rfl
  unfold Table.lineLength
  omega

theorem covers_stateTable (machine : Machine) :
    Table.Covers machine.stateTable.titles machine.registerTable machine.stackTable :=
  ⟨(show 9 ≤ 22 by decide).trans (le_lineLength rfl),
    (show 5 ≤ 22 by decide).trans (le_lineLength rfl)⟩

/-- Displays with the same text have the same headline and the same tables. -/
theorem parts_of_text_eq (same : machine.text = other.text) :
    machine.headline = other.headline ∧ machine.registerTable.lines = other.registerTable.lines
      ∧ machine.stackTable.lines = other.stackTable.lines := by
  have plain (machine : Machine) :
      ∀ line ∈ machine.headline :: machine.stateTable.lines, '\n' ∉ line := by
    intro line there
    rcases List.mem_cons.mp there with rfl | there
    · exact machine.plain_headline
    · exact machine.plain_stateTable line there
  obtain ⟨headlines, tables⟩ :=
    List.cons.inj (eq_of_flatMap_lineFeed (plain machine) (plain other) same)
  rw [stateTable_eq_sideBySide, stateTable_eq_sideBySide] at tables
  exact ⟨headlines, Table.lines_eq_of_sideBySide machine.covers_stateTable
    other.covers_stateTable tables⟩

/-! ## What is shown alike -/

theorem slotAddress_congr (same : machine.register .r0 = other.register .r0) (slot : Nat) :
    machine.slotAddress slot = other.slotAddress slot := by
  unfold slotAddress
  rw [same]

theorem shownSlots_congr (size : machine.memory.size = other.memory.size)
    (pointer : machine.register .r0 = other.register .r0) :
    machine.shownSlots = other.shownSlots := by
  simp only [shownSlots, size, slotAddress_congr pointer]

theorem ShownAlike.stackWindow_eq (alike : machine.ShownAlike other) :
    machine.stackWindow = other.stackWindow := by
  have pointer := alike.registers .r0
  rw [Machine.stackWindow_eq, Machine.stackWindow_eq, ← shownSlots_congr alike.size pointer]
  refine List.map_congr_left fun slot shown => ?_
  obtain ⟨four, inside⟩ := mem_shownSlots.mp shown
  rw [alike.quads slot four inside, slotAddress_congr pointer]

theorem ShownAlike.text_eq (alike : machine.ShownAlike other) : machine.text = other.text := by
  have headlines : machine.headline = other.headline := by
    rw [headline_eq, headline_eq, alike.ip, alike.size]
  have registers : machine.registerTable = other.registerTable := by
    simp only [registerTable, alike.registers]
  have sameStack : machine.stackTable = other.stackTable := by
    rw [stackTable, stackTable, alike.stackWindow_eq]
  have states : machine.stateTable = other.stateTable := by
    unfold stateTable
    rw [registers, sameStack]
  unfold text
  rw [headlines, states]

end Machine

/-- **A display tells all that it is made of.** Two machines have the same display if and only if
they have the same instruction pointer, as many bytes of memory, the same values in all registers
and the same quads at those of the four slots above the stack pointer that lie inside memory. -/
theorem Machine.text_eq_iff_shownAlike (machine other : Machine) :
    machine.text = other.text ↔ machine.ShownAlike other := by
  constructor
  · intro same
    obtain ⟨headlines, registerLines, stackLines⟩ := parts_of_text_eq same
    obtain ⟨ip, size⟩ := headline_injective headlines
    have registers := register_eq_of_lines_eq registerLines
    have windows := stackWindow_eq_of_lines_eq stackLines
    have slots := shownSlots_congr size (registers .r0)
    refine ⟨ip, size, registers, fun slot four inside => ?_⟩
    -- The slots are shown by both, so that they can be compared one by one.
    have shown : slot ∈ machine.shownSlots := mem_shownSlots.mpr ⟨four, inside⟩
    rw [stackWindow_eq, stackWindow_eq, ← slots] at windows
    have entry := List.map_inj_left.mp windows slot shown
    have quads := congrArg UInt64.toNat (Prod.ext_iff.mp entry).2
    rwa [(toNat_shown shown).2, (toNat_shown (slots ▸ shown)).2] at quads
  · exact ShownAlike.text_eq

end RegisterVM
