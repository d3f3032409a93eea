import RegisterVM.Proofs.Machine.Assembled
import RegisterVM.Proofs.Machine.Faults
import RegisterVM.Proofs.Machine.Footprint
import RegisterVM.Proofs.Word.Congruence

/-!
# What an operand stands for

The address that an operand comes to, and the number that stands there or in its
register, said in numbers that do not wrap by themselves. The places that an instruction
demands, reads and writes through its operands are at these addresses
(`Operand.location_of_indirect`). What an instruction reads through an operand is this
number (`Operand.toNat_read`, `Instruction.toNat_source`), and what it writes through
one is there afterwards (`Operand.holds_apply`).
-/

namespace RegisterVM

/-! ## Bytes in memory -/

namespace Memory

variable {memory : Memory} {address : UInt64} {start : Nat} {bytes : List UInt8}

theorem holds_store (fits : address.toNat + bytes.length ≤ memory.size) :
    (memory.store address bytes).Holds address.toNat bytes := by
  intro place inside
  rw [getElem?_store, if_pos ⟨Nat.le_add_right _ _, by omega, by omega⟩, Nat.add_sub_cancel_left]

/-- Of a stored number there is as much in memory as the width has room for. -/
theorem holds_store_encode {width : Width} (number : Nat)
    (fits : address.toNat + width.bytes ≤ memory.size) :
    (memory.store address (LittleEndian.encode width.bytes number)).Holds address.toNat
      (LittleEndian.encode width.bytes (number % 2 ^ width.bits)) := by
  rw [Width.bits, Nat.pow_mul, LittleEndian.encode_mod]
  refine holds_store ?_
  rwa [LittleEndian.length_encode]

namespace Holds

/-- A store leaves alone what is held behind its range. -/
theorem store {stored : List UInt8} (held : memory.Holds start bytes)
    (apart : address.toNat + stored.length ≤ start) :
    (memory.store address stored).Holds start bytes := by
  intro place inside
  rw [getElem?_store, if_neg (by omega)]
  exact held place inside

theorem append {later : List UInt8} (first : memory.Holds start bytes)
    (second : memory.Holds (start + bytes.length) later) :
    memory.Holds start (bytes ++ later) := by
  intro place inside
  rw [List.length_append] at inside
  by_cases front : place < bytes.length
  · rw [List.getElem?_append_left front, first place front]
  · rw [List.getElem?_append_right (Nat.le_of_not_lt front),
      ← second (place - bytes.length) (by omega)]
    congr 1
    omega

theorem le_size (held : memory.Holds start bytes) (some : 0 < bytes.length) :
    start + bytes.length ≤ memory.size := by
  have last := held (bytes.length - 1) (by omega)
  rw [List.getElem?_eq_getElem (by omega)] at last
  have inside : start + (bytes.length - 1) < memory.size :=
    (Array.getElem?_eq_some_iff.mp last).1
  omega

theorem window_eq (held : memory.Holds start bytes) :
    memory.window start bytes.length = bytes := by
  apply List.ext_getElem?
  intro place
  rw [window, Array.getElem?_toList, Array.getElem?_extract]
  by_cases inside : place < bytes.length
  · have fits := held.le_size (by omega)
    rw [if_pos (by have : memory.bytes.size = memory.size := rfl; omega), held place inside]
  · rw [if_neg (by omega), List.getElem?_eq_none (by omega)]

/-- The number whose bytes are held is what is read there. -/
theorem read_eq {width : Width} {number : Nat}
    (held : memory.Holds address.toNat (LittleEndian.encode width.bytes number))
    (fits : number < 2 ^ width.bits) : memory.read address width = .ok (.ofNat number) := by
  have length : (LittleEndian.encode width.bytes number).length = width.bytes :=
    LittleEndian.length_encode _ _
  have inside := held.le_size (by rw [length]; exact width.bytes_pos)
  have shown := held.window_eq
  rw [length] at inside shown
  have granted : memory.check address width.bytes = .ok () := if_pos inside
  rw [Width.bits, Nat.pow_mul] at fits
  simp only [Memory.read, granted, shown, LittleEndian.decode_encode]
  rw [Nat.mod_eq_of_lt fits]

end Holds

end Memory

/-! ## Addresses -/

/-- How many bytes an index leads on. -/
def displacement (index : Option NaturalIndex) : Int :=
  (index.map (·.offset.toInt)).getD 0

/-- Displacing wraps around the address space. -/
theorem toNat_displace (index : Option NaturalIndex) (base : UInt64) :
    ((displace index base).toNat : Int) = (base.toNat + displacement index) % 2 ^ 64 := by
  cases index with
  | none =>
      have fits : (base.toNat : Int) < 2 ^ 64 := by exact_mod_cast base.toNat_lt
      show (base.toNat : Int) = (base.toNat + 0) % 2 ^ 64
      rw [add_zero, Int.emod_eq_of_lt (Int.natCast_nonneg _) fits]
  | some index =>
      have sum := Word.modEq_of_toNat_eq (UInt64.toNat_add base index.offset.toUInt64)
      rw [Nat.cast_add] at sum
      have moved := sum.trans ((Word.toNat_toUInt64_modEq index.offset).add_left _)
      have fits : ((base + index.offset.toUInt64).toNat : Int) < 2 ^ 64 := by
        exact_mod_cast UInt64.toNat_lt _
      show ((base + index.offset.toUInt64).toNat : Int) = (base.toNat + index.offset.toInt) % 2 ^ 64
      rw [← moved.eq, Int.emod_eq_of_lt (Int.natCast_nonneg _) fits]

/-- A range that the check lets pass lies in memory. -/
theorem Location.inside_of_check {address : UInt64} {machine : Machine} {width : Width}
    (fits : (Location.memory address).check machine width = .ok ()) :
    address.toNat + width.bytes ≤ machine.memory.size := by
  by_contra outside
  rw [check, Memory.check, if_neg outside] at fits
  contradiction

namespace Operand

variable {operand : Operand} {machine : Machine} {index : Option NaturalIndex} {width : Width}

/-- The address that the operand comes to: its register and as many bytes as the index leads on,
around the address space. -/
def address (operand : Operand) (machine : Machine) (index : Option NaturalIndex) : Nat :=
  (((machine.register operand.register).toNat + displacement index) % 2 ^ 64).toNat

/-- The number that the operand stands for: what its register keeps in so many bits, or what so many
bytes at its address spell. -/
def number (operand : Operand) (machine : Machine) (index : Option NaturalIndex)
    (width : Width) : Nat :=
  if operand.indirect then
    LittleEndian.decode (machine.memory.window (operand.address machine index) width.bytes)
  else
    (machine.register operand.register).toNat % 2 ^ width.bits

/-- The number that the operand stands for with an immediate: the sum of the two, or what the bytes
spell that the low 16 bits of the immediate lead to. -/
def source (operand : Operand) (machine : Machine) (immediate : Option UInt32)
    (width : Width) : Nat :=
  if operand.indirect then
    let index := immediate.map fun value => NaturalIndex.decode .word value.toUInt16.toUInt64
    operand.number machine index width
  else
    ((machine.register operand.register).toNat + (immediate.map UInt32.toNat).getD 0)
      % 2 ^ width.bits

/-- The operand, if it comes to the address, holds the number: in its whole register, or in so many
bytes, the least significant first. -/
def Holds (operand : Operand) (address : Nat) (width : Width) (number : Nat)
    (machine : Machine) : Prop :=
  if operand.indirect then
    machine.memory.Holds address (LittleEndian.encode width.bytes number)
  else
    (machine.register operand.register).toNat = number

theorem toNat_address (operand : Operand) (machine : Machine) (index : Option NaturalIndex) :
    (displace index (machine.register operand.register)).toNat = operand.address machine index := by
  rw [address, ← toNat_displace, Int.toNat_natCast]

/-- An indirect operand is looked for at its address: there `Instruction.writable` and `readable`
have it by `location`, and `Instruction.demands` by `Operand.demands`. -/
theorem location_of_indirect (indirect : operand.indirect) (machine : Machine)
    (index : Option NaturalIndex) (width : Width) :
    ∃ address : UInt64, address.toNat = operand.address machine index
      ∧ operand.location machine index = .memory address
      ∧ operand.demands machine index width = [.range address width] :=
  ⟨_, operand.toNat_address machine index, if_pos indirect, if_pos indirect⟩

theorem number_lt (operand : Operand) (machine : Machine) (index : Option NaturalIndex)
    (width : Width) : operand.number machine index width < 2 ^ width.bits := by
  unfold number
  split
  next => exact machine.memory.decode_window_lt _ width
  next => exact Nat.mod_lt _ (Nat.two_pow_pos _)

theorem source_lt (operand : Operand) (machine : Machine) (immediate : Option UInt32)
    (width : Width) : operand.source machine immediate width < 2 ^ width.bits := by
  unfold source
  split
  next => exact operand.number_lt machine _ width
  next => exact Nat.mod_lt _ (Nat.two_pow_pos _)

/-- What is read through the operand is the number that it stands for. -/
theorem toNat_read {value : UInt64}
    (read : (operand.location machine index).read machine width = .ok value) :
    value.toNat = operand.number machine index width := by
  by_cases indirect : operand.indirect
  · obtain ⟨address, place, located, -⟩ := location_of_indirect indirect machine index width
    rw [located, Location.read] at read
    rw [number, if_pos indirect, ← place]
    cases found : machine.memory.read address width with
    | error fault =>
        rw [found] at read
        contradiction
    | ok word =>
        rw [found] at read
        injection read with same
        subst same
        exact (Memory.toNat_read found).1
  · rw [location, if_neg indirect] at read
    injection read with same
    subst same
    rw [number, if_neg indirect, Width.toNat_truncate]

/-- What is written through the operand is there afterwards, as far as the width has room for it. -/
theorem holds_apply (value : UInt64)
    (fits : (operand.location machine index).check machine width = .ok ()) :
    operand.Holds (operand.address machine index) width (value.toNat % 2 ^ width.bits)
      (machine.apply ⟨operand.location machine index, width, value⟩) := by
  by_cases indirect : operand.indirect
  · obtain ⟨address, place, located, -⟩ := location_of_indirect indirect machine index width
    rw [located] at fits ⊢
    rw [Holds, if_pos indirect, ← place]
    exact Memory.holds_store_encode _ (Location.inside_of_check fits)
  · rw [location, if_neg indirect, Holds, if_neg indirect, Machine.register_apply, if_pos rfl,
      Width.toNat_truncate]

end Operand

/-- What is read of the operand with the immediate is the number that it stands for with it. -/
theorem Instruction.toNat_source {instruction : Instruction} {machine : Machine} {value : UInt64}
    (read : instruction.carrierValue machine = .ok value) :
    value.toNat = instruction.carrier.source machine instruction.immediate?
      instruction.operationWidth := by
  by_cases indirect : instruction.carrier.indirect
  · rw [carrierValue, if_pos indirect] at read
    have low (immediate : UInt32) : NaturalIndex.decode .word immediate.toUInt16.toUInt64
        = NaturalIndex.decode .word immediate.toUInt64 := by
      refine NaturalIndex.decode_congr (Width.truncate_eq_iff.mpr ?_)
      exact Nat.mod_mod _ _
    simp only [Operand.source, if_pos indirect, low]
    exact Operand.toNat_read read
  · have cut := toNat_carrierValue read
    rw [sourceNumber, if_neg indirect] at cut
    rw [Operand.source, if_neg indirect]
    exact cut

end RegisterVM
