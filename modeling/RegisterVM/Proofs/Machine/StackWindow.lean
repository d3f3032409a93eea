import RegisterVM.Machine.Display
import RegisterVM.Proofs.Machine.Faults
import RegisterVM.Proofs.Memory.History

/-!
# The top of the stack, as it is displayed

A display shows the four quads at and above the stack pointer, less those that do not lie
inside memory, and numbers the ones that are left. `Machine.shownSlots` are the slots that
are left, and `Machine.stackWindow_eq` says that just these are shown. In a memory of
less than half the address space nothing in the middle is ever left out: the slots fall
inside memory together, either before the addresses wrap or after
(`Machine.shownSlots_convex`). A row is therefore numbered by its slot unless the
addresses wrap.
-/

namespace RegisterVM

/-! ## Intervals of a range -/

section

variable {p : Nat → Prop} [DecidablePred p] {count : Nat}

theorem mem_picked_iff {first length : Nat}
    (picked : (List.range count).filter p = List.range' first length) (number : Nat) :
    number < count ∧ p number ↔ first ≤ number ∧ number < first + length := by
  rw [← List.mem_range'_1, ← picked, List.mem_filter, List.mem_range, decide_eq_true_iff]

/-- What a property picks out of a range is an interval, if it holds between any two numbers that
it holds of. -/
theorem filter_range_of_convex
    (convex : ∀ low middle high, low < middle → middle < high → high < count →
      p low → p high → p middle) :
    ∃ first length, (List.range count).filter p = List.range' first length := by
  induction count with
  | zero => exact ⟨0, 0, rfl⟩
  | succ count ih =>
      obtain ⟨first, length, picked⟩ := ih fun low middle high h h' last =>
        convex low middle high h h' (Nat.lt_succ_of_lt last)
      rw [List.range_succ, List.filter_append, picked]
      by_cases last : p count
      · cases length with
        | zero => exact ⟨count, 1, by simp [last]⟩
        | succ length =>
            -- The interval so far ends right below the last number, which goes on with it.
            obtain ⟨inside, holds⟩ := (mem_picked_iff picked (first + length)).mpr (by omega)
            have reaches : count = first + (length + 1) := by
              by_contra gap
              have next := (mem_picked_iff picked (first + (length + 1))).mp ⟨by omega,
                convex (first + length) _ count (by omega) (by omega) (by omega) holds last⟩
              omega
            subst reaches
            refine ⟨first, length + 2, ?_⟩
            rw [List.range'_concat (n := length + 1), Nat.one_mul]
            simp [last]
      · exact ⟨first, length, by simp [last]⟩

/-- The interval starts at zero, if the property holds below any number that it holds of. -/
theorem filter_range_of_downward
    (downward : ∀ low high, low < high → high < count → p high → p low) :
    ∃ length, (List.range count).filter p = List.range length := by
  obtain ⟨first, length, picked⟩ := filter_range_of_convex
    fun _ middle high _ above last _ holds => downward middle high above last holds
  cases length with
  | zero => exact ⟨0, picked⟩
  | succ length =>
      obtain ⟨inside, holds⟩ := (mem_picked_iff picked first).mpr (by omega)
      have lowest : first = 0 := by
        by_contra positive
        have zero := (mem_picked_iff picked 0).mp
          ⟨by omega, downward 0 first (by omega) inside holds⟩
        omega
      refine ⟨length + 1, ?_⟩
      rw [picked, lowest, List.range_eq_range']

end

/-- The numbers below a bound are their own places. -/
theorem mapIdx_range {α : Type} (count : Nat) (f : Nat → Nat → α) :
    (List.range count).mapIdx f = (List.range count).map fun number => f number number := by
  apply List.ext_getElem
  · rw [List.length_mapIdx, List.length_map]
  · intro place _ _
    rw [List.getElem_mapIdx, List.getElem_map, List.getElem_range]

/-! ## The slots that are shown -/

/-- The number that eight bytes of the memory spell, the lowest one first. -/
def Memory.quadAt (memory : Memory) (start : Nat) : Nat :=
  ∑ place ∈ Finset.range 8, 256 ^ place * (memory.byteAt (start + place)).toNat

theorem Memory.quadAt_lt {memory : Memory} {start : Nat} (inside : start + 8 ≤ memory.size) :
    memory.quadAt start < 2 ^ 64 := by
  obtain ⟨sum, room⟩ := memory.decode_window inside
  rw [quadAt, ← sum]
  exact room

/-- What is read at an address is the quad there, if it lies inside memory. -/
theorem Memory.read64_ofNat (memory : Memory) {start : Nat} (start_lt : start < 2 ^ 64) :
    memory.read64 (.ofNat start)
      = if start + 8 ≤ memory.size then .ok (.ofNat (memory.quadAt start))
        else .error (.outOfBounds (.ofNat start) 8) := by
  have word : (UInt64.ofNat start).toNat = start := UInt64.toNat_ofNat_of_lt' start_lt
  unfold read64 read check
  rw [word, show Width.quad.bytes = 8 from rfl]
  by_cases inside : start + 8 ≤ memory.size
  · simp only [if_pos inside, quadAt, (memory.decode_window inside).1]
  · simp only [if_neg inside]

namespace Machine

variable {machine : Machine}

/-- The address of a slot: as many quads above the stack pointer, around the address space. -/
def slotAddress (machine : Machine) (slot : Nat) : Nat :=
  ((machine.register .r0).toNat + 8 * slot) % 2 ^ 64

/-- The slots that are shown: of the first four, those with all their bytes inside memory. -/
def shownSlots (machine : Machine) : List Nat :=
  (List.range 4).filter fun slot => machine.slotAddress slot + 8 ≤ machine.memory.size

theorem slotAddress_lt (machine : Machine) (slot : Nat) : machine.slotAddress slot < 2 ^ 64 :=
  Nat.mod_lt _ (Nat.two_pow_pos 64)

theorem ofNat_slotAddress (machine : Machine) (slot : Nat) :
    machine.register .r0 + 8 * UInt64.ofNat slot = .ofNat (machine.slotAddress slot) := by
  apply UInt64.toNat.inj
  rw [UInt64.toNat_add, UInt64.toNat_mul, UInt64.toNat_ofNat', UInt64.toNat_ofNat', slotAddress]
  show (_ + 8 * (slot % 2 ^ 64) % 2 ^ 64) % 2 ^ 64 = _ % 2 ^ 64 % 2 ^ 64
  omega

/-- A display shows these slots and no others, each by its address and its quad. -/
theorem stackWindow_eq (machine : Machine) :
    machine.stackWindow = machine.shownSlots.map fun slot =>
      (.ofNat (machine.slotAddress slot),
        .ofNat (machine.memory.quadAt (machine.slotAddress slot))) := by
  unfold stackWindow shownSlots
  rw [show stackSlots = (List.range 4).map UInt64.ofNat from rfl, List.filterMap_map]
  simp only [Function.comp_def, ofNat_slotAddress]
  generalize List.range 4 = slots
  induction slots with
  | nil => rfl
  | cons slot slots ih =>
      have found := Memory.read64_ofNat machine.memory (machine.slotAddress_lt slot)
      rw [List.filterMap_cons, ih, found]
      by_cases inside : machine.slotAddress slot + 8 ≤ machine.memory.size
      · simp [inside]
      · simp [inside]

/-- In less than half of the address space, a slot between two that are shown is shown. -/
theorem shownSlots_convex (short : machine.memory.size ≤ 2 ^ 63 - 1) {low middle high : Nat}
    (above : low < middle) (below : middle < high) (last : high < 4)
    (lowInside : machine.slotAddress low + 8 ≤ machine.memory.size)
    (highInside : machine.slotAddress high + 8 ≤ machine.memory.size) :
    machine.slotAddress middle + 8 ≤ machine.memory.size := by
  unfold slotAddress at *
  have pointer : (machine.register .r0).toNat < 2 ^ 64 := UInt64.toNat_lt _
  omega

/-- Where no address wraps, a slot below one that is shown is shown. -/
theorem shownSlots_downward (unwrapped : (machine.register .r0).toNat + 24 < 2 ^ 64)
    {low high : Nat} (above : low < high) (last : high < 4)
    (highInside : machine.slotAddress high + 8 ≤ machine.memory.size) :
    machine.slotAddress low + 8 ≤ machine.memory.size := by
  unfold slotAddress at *
  omega

theorem mem_shownSlots {slot : Nat} :
    slot ∈ machine.shownSlots ↔ slot < 4 ∧ machine.slotAddress slot + 8 ≤ machine.memory.size := by
  rw [shownSlots, List.mem_filter, List.mem_range, decide_eq_true_iff]

/-- A slot that is shown is shown by numbers that no word cuts. -/
theorem toNat_shown {slot : Nat} (shown : slot ∈ machine.shownSlots) :
    (UInt64.ofNat (machine.slotAddress slot)).toNat = machine.slotAddress slot
      ∧ (UInt64.ofNat (machine.memory.quadAt (machine.slotAddress slot))).toNat
        = machine.memory.quadAt (machine.slotAddress slot) :=
  ⟨UInt64.toNat_ofNat_of_lt' (machine.slotAddress_lt slot),
    UInt64.toNat_ofNat_of_lt' (Memory.quadAt_lt (mem_shownSlots.mp shown).2)⟩

/-- The row of a slot, with a number in its label. -/
def slotRow (machine : Machine) (number slot : Nat) : Row :=
  let address := machine.slotAddress slot
  valueRow ("SP+".toList ++ Numeral.decimal number)
    ('[' :: Numeral.hex address ++ ']' :: ' '
      :: Numeral.hexPadded 16 (machine.memory.quadAt address))

/-- Each slot that is shown has a row, numbered by its place among them. -/
theorem rows_stackTable (machine : Machine) :
    machine.stackTable.rows = machine.shownSlots.mapIdx machine.slotRow := by
  unfold stackTable
  rw [stackWindow_eq]
  apply List.ext_getElem
  · rw [List.length_mapIdx, List.length_map, List.length_mapIdx]
  · intro place _ inside
    rw [List.length_mapIdx] at inside
    obtain ⟨address, quad⟩ := toNat_shown (List.getElem_mem inside)
    rw [List.getElem_mapIdx, List.getElem_mapIdx, List.getElem_map]
    simp only [slotRow, quadText, address, quad]

/-- Behind a slot inside memory the addresses do not wrap. -/
theorem slotAddress_succ {slot : Nat}
    (inside : machine.slotAddress slot + 8 ≤ machine.memory.size) :
    machine.slotAddress (slot + 1) = machine.slotAddress slot + 8 := by
  have size : machine.memory.size < 2 ^ 64 := machine.memory.size_lt
  unfold slotAddress at *
  omega

theorem slotAddress_of_unwrapped (unwrapped : (machine.register .r0).toNat + 24 < 2 ^ 64)
    {slot : Nat} (four : slot < 4) :
    machine.slotAddress slot = (machine.register .r0).toNat + 8 * slot := by
  unfold slotAddress
  omega

/-- Where consecutive slots are shown, each stands eight bytes above the one before. -/
theorem isChain_stackWindow {first count : Nat}
    (consecutive : machine.shownSlots = List.range' first count) :
    machine.stackWindow.IsChain fun lower upper => upper.1.toNat = lower.1.toNat + 8 := by
  rw [stackWindow_eq, List.isChain_map, List.isChain_iff_getElem]
  intro place inside
  have next : machine.shownSlots[place + 1] = machine.shownSlots[place] + 1 := by
    simp only [consecutive, List.getElem_range']
    omega
  have lower := List.getElem_mem (Nat.lt_of_succ_lt inside)
  have upper := List.getElem_mem inside
  rw [(toNat_shown lower).1, (toNat_shown upper).1, next,
    slotAddress_succ (mem_shownSlots.mp lower).2]

end Machine

/-- **The top of the stack is shown as it stands.** In a memory of less than half the address space,
a display shows exactly those of the four slots whose eight bytes lie inside memory, in their order,
each by its address and the number that its bytes spell. Those are consecutive slots, each eight
bytes above the one before; and where no address wraps they are the lowest ones, so that a row is
numbered by its slot. The cells of a row are the two texts `cells` of its number and its address. -/
theorem Machine.stack_shown_in_order (machine : Machine)
    (short : machine.memory.size ≤ 2 ^ 63 - 1) :
    let cells (number address : Nat) : List (List Char) × List (List Char) :=
      (["SP+".toList ++ Numeral.decimal number ++ [' ', '=']],
        ['[' :: Numeral.hex address ++ ']' :: ' '
          :: Numeral.hexPadded 16 (machine.memory.quadAt address)])
    (machine.stackWindow.map fun (address, value) => (address.toNat, value.toNat))
        = machine.shownSlots.map (fun slot =>
          (machine.slotAddress slot, machine.memory.quadAt (machine.slotAddress slot)))
    ∧ machine.stackTable.rows = machine.shownSlots.mapIdx machine.slotRow
    ∧ (machine.stackTable.rows.map fun row => (row.first.lines, row.second.lines))
      = machine.shownSlots.mapIdx (fun place slot => cells place (machine.slotAddress slot))
    ∧ (∃ first count, machine.shownSlots = List.range' first count)
    ∧ machine.stackWindow.IsChain (fun lower upper => upper.1.toNat = lower.1.toNat + 8)
    ∧ ((machine.register .r0).toNat + 24 < 2 ^ 64 →
      (∃ count, machine.shownSlots = List.range count)
      ∧ machine.stackTable.rows = (machine.shownSlots.map fun slot =>
        let address := (machine.register .r0).toNat + 8 * slot
        valueRow ("SP+".toList ++ Numeral.decimal slot)
          ('[' :: Numeral.hex address ++ ']' :: ' '
            :: Numeral.hexPadded 16 (machine.memory.quadAt address)))
      ∧ (machine.stackTable.rows.map fun row => (row.first.lines, row.second.lines))
        = machine.shownSlots.map fun slot =>
          cells slot ((machine.register .r0).toNat + 8 * slot)) := by
  intro cells
  obtain ⟨first, count, consecutive⟩ : ∃ first count, machine.shownSlots = List.range' first count :=
    filter_range_of_convex fun _ _ _ => shownSlots_convex short
  have cells_slotRow (number slot : Nat) :
      ((machine.slotRow number slot).first.lines, (machine.slotRow number slot).second.lines)
        = cells number (machine.slotAddress slot) := rfl
  refine ⟨?_, machine.rows_stackTable, ?_, ⟨first, count, consecutive⟩,
    isChain_stackWindow consecutive, ?_⟩
  · rw [stackWindow_eq, List.map_map]
    refine List.map_congr_left fun slot shown => ?_
    obtain ⟨address, quad⟩ := toNat_shown shown
    exact Prod.ext address quad
  · rw [rows_stackTable, List.mapIdx_eq_zipIdx_map, List.mapIdx_eq_zipIdx_map, List.map_map]
    exact List.map_congr_left fun entry _ => cells_slotRow entry.2 entry.1
  · intro unwrapped
    obtain ⟨count, lowest⟩ : ∃ count, machine.shownSlots = List.range count :=
      filter_range_of_downward fun _ _ => shownSlots_downward unwrapped
    have numbered : machine.stackTable.rows
        = machine.shownSlots.map fun slot => machine.slotRow slot slot := by
      rw [rows_stackTable, lowest, mapIdx_range]
    refine ⟨⟨count, lowest⟩, ?_, ?_⟩
    · rw [numbered]
      refine List.map_congr_left fun slot shown => ?_
      rw [slotRow, slotAddress_of_unwrapped unwrapped (mem_shownSlots.mp shown).1]
    · rw [numbered, List.map_map]
      refine List.map_congr_left fun slot shown => ?_
      rw [← slotAddress_of_unwrapped unwrapped (mem_shownSlots.mp shown).1]
      exact cells_slotRow slot slot

/-- Twenty bytes with the stack pointer at an odd address, and with it eight below the end of the
address space, where the second slot is the first one inside. -/
theorem Machine.stack_shown_in_order_unaligned :
    let image : Memory :=
      ⟨#[0, 0, 0, 1, 2, 0, 0, 0, 0, 0, 0, 0xff, 0, 0, 0, 0, 0, 0, 0x80, 0], by decide⟩
    let machine := (Machine.ofMemory image).setRegister .r0 3
    let wrapped := (Machine.ofMemory image).setRegister .r0 0xfffffffffffffff8
    machine.memory.size ≤ 2 ^ 63 - 1
      ∧ (machine.register .r0).toNat + 24 < 2 ^ 64
      ∧ machine.stackTable.rows = [
        valueRow "SP+0".toList "[0x3] 0x0000000000000201".toList,
        valueRow "SP+1".toList "[0xb] 0x80000000000000ff".toList]
      ∧ (machine.stackTable.rows.map fun row => (row.first.lines, row.second.lines)) = [
        (["SP+0 =".toList], ["[0x3] 0x0000000000000201".toList]),
        (["SP+1 =".toList], ["[0xb] 0x80000000000000ff".toList])]
      ∧ (wrapped.stackWindow.map fun (address, value) => (address.toNat, value.toNat))
        = [(0, 0x201000000), (8, 0xff000000)] := by
  intro image machine wrapped
  have short : machine.memory.size ≤ 2 ^ 63 - 1 := by decide
  have unwrapped : (machine.register .r0).toNat + 24 < 2 ^ 64 := by decide
  have shown : machine.shownSlots = [0, 1] := by decide
  have shownWrapped : wrapped.shownSlots = [1, 2] := by decide
  obtain ⟨-, -, -, -, -, labelled⟩ := Machine.stack_shown_in_order machine short
  obtain ⟨listed, -⟩ := Machine.stack_shown_in_order wrapped (by decide)
  obtain ⟨-, rows, cells⟩ := labelled unwrapped
  refine ⟨short, unwrapped, ?_, ?_, ?_⟩
  · rw [rows, shown]
    subst machine image
    rfl
  · rw [cells, shown]
    subst machine image
    rfl
  · rw [listed, shownWrapped]
    subst wrapped image
    rfl

end RegisterVM
