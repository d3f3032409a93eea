import RegisterVM.Proofs.Machine.Footprint

/-!
# What an instruction depends on

An instruction looks at the registers of its operands, at the stack pointer if it is
a `PUSH` or a `POP`, and at the bytes that it reads (`Instruction.readable`). Two
machines that are alike in these, and in the size of memory, are its `SameInputs`:
it resolves to the same writes on both (`Instruction.SameInputs.effect`), or fails
with the same fault, and equal writes leave equal contents behind wherever they go
(`Machine.SameAt.foldl_apply`).
-/

namespace RegisterVM

/-- All of the place lies inside the memory. -/
def Place.Inside (place : Place) (memory : Memory) : Prop :=
  match place.location with
  | .register _ => True
  | .memory start => start.toNat + place.width.bytes ≤ memory.size

namespace Instruction

/-- The places that hold the values the instruction reads. -/
def readable (instruction : Instruction) (machine : Machine) : List Place :=
  let width := instruction.operationWidth
  let source : Place := ⟨instruction.carrier.location machine instruction.carrierIndex?, width⟩
  match instruction.opcode with
  | .nop | .ret => []
  | .unary _ | .push => [source]
  | .binary _ => [⟨instruction.operand1.location machine none, width⟩, source]
  | .pop => [⟨.memory (machine.register .r0), width⟩]
  | .move form =>
      [⟨instruction.operand2.location machine (instruction.moveIndexes form).2, form.valueWidth⟩]

/-- The machines agree on all that the instruction looks at. Of a range that runs out
of memory no byte is looked at. -/
structure SameInputs (instruction : Instruction) (machine other : Machine) : Prop where
  size : other.memory.size = machine.memory.size
  register1 : other.register instruction.operand1.register
    = machine.register instruction.operand1.register
  register2 : other.register instruction.operand2.register
    = machine.register instruction.operand2.register
  stackPointer : instruction.opcode = .push ∨ instruction.opcode = .pop →
    other.register .r0 = machine.register .r0
  byte : ∀ place ∈ instruction.readable machine, place.Inside machine.memory →
    ∀ address, place.HasByte address →
      other.memory.bytes[address]? = machine.memory.bytes[address]?

end Instruction

/-! ## Equal inputs -/

theorem Memory.check_congr {memory other : Memory} (sameSize : other.size = memory.size)
    (address : UInt64) (length : Nat) :
    other.check address length = memory.check address length := by
  rw [check, check, sameSize]

theorem Memory.read_congr {memory other : Memory} {address : UInt64} {width : Width}
    (sameSize : other.size = memory.size)
    (same : (Place.mk (.memory address) width).Inside memory →
      ∀ place, (Place.mk (.memory address) width).HasByte place →
        other.bytes[place]? = memory.bytes[place]?) :
    other.read address width = memory.read address width := by
  unfold read
  rw [check_congr sameSize]
  by_cases inside : address.toNat + width.bytes ≤ memory.size
  · have shown : other.window address.toNat width.bytes
        = memory.window address.toNat width.bytes := by
      apply List.ext_getElem?
      intro place
      have otherSize : other.bytes.size = memory.bytes.size := sameSize
      simp only [window, Array.getElem?_toList, Array.getElem?_extract, otherSize]
      split
      next within =>
        have within : place < width.bytes := by omega
        exact same inside _ ⟨Nat.le_add_right _ _, Nat.add_lt_add_left within _⟩
      next => rfl
    rw [shown]
  · rw [check, if_neg inside]

section

variable {machine other : Machine}

theorem Location.check_congr (sameSize : other.memory.size = machine.memory.size)
    (location : Location) (width : Width) :
    location.check other width = location.check machine width := by
  cases location with
  | register target => rfl
  | memory address => rw [check, check, Memory.check_congr sameSize]

theorem Operand.location_congr {operand : Operand}
    (sameRegister : other.register operand.register = machine.register operand.register)
    (index : Option NaturalIndex) :
    operand.location other index = operand.location machine index := by
  rw [location, location, sameRegister]

/-- What an operand's location holds depends on its register and on its bytes. -/
theorem Operand.read_congr {operand : Operand} {index : Option NaturalIndex} {width : Width}
    (sameSize : other.memory.size = machine.memory.size)
    (sameRegister : other.register operand.register = machine.register operand.register)
    (same : (Place.mk (operand.location machine index) width).Inside machine.memory →
      ∀ address, (Place.mk (operand.location machine index) width).HasByte address →
        other.memory.bytes[address]? = machine.memory.bytes[address]?) :
    (operand.location other index).read other width
      = (operand.location machine index).read machine width := by
  rw [location_congr sameRegister]
  by_cases indirect : operand.indirect
  · rw [location, if_pos indirect] at same ⊢
    show (other.memory.read _ width).mapError _ = (machine.memory.read _ width).mapError _
    rw [Memory.read_congr sameSize same]
  · rw [location, if_neg indirect]
    show Except.ok (width.truncate _) = Except.ok (width.truncate _)
    rw [sameRegister]

namespace Instruction.SameInputs

variable {instruction : Instruction}

theorem carrierRegister (inputs : instruction.SameInputs machine other) :
    other.register instruction.carrier.register
      = machine.register instruction.carrier.register := by
  unfold carrier
  split
  next => exact inputs.register1
  next => exact inputs.register1
  next => exact inputs.register2

theorem carrierValue (inputs : instruction.SameInputs machine other)
    (listed : ⟨instruction.carrier.location machine instruction.carrierIndex?,
      instruction.operationWidth⟩ ∈ instruction.readable machine) :
    instruction.carrierValue other = instruction.carrierValue machine := by
  simp only [Instruction.carrierValue]
  rw [Operand.read_congr inputs.size inputs.carrierRegister (inputs.byte _ listed),
    inputs.carrierRegister]

theorem moveValue (inputs : instruction.SameInputs machine other) {form : MoveForm}
    (opcode : instruction.opcode = .move form) :
    instruction.moveValue form other = instruction.moveValue form machine := by
  have listed : ⟨instruction.operand2.location machine (instruction.moveIndexes form).2,
      form.valueWidth⟩ ∈ instruction.readable machine := by
    rw [readable, opcode]
    exact List.mem_cons_self
  simp only [Instruction.moveValue]
  rw [Operand.read_congr inputs.size inputs.register2 (inputs.byte _ listed), inputs.register2]

/-- The instruction comes to the same writes on both machines, or to the same
fault. -/
theorem effect (inputs : instruction.SameInputs machine other) :
    instruction.effect other = instruction.effect machine := by
  have sameTarget := Operand.location_congr inputs.register1
  have sameCheck := Location.check_congr inputs.size
  have sameSource (listed : ⟨instruction.carrier.location machine instruction.carrierIndex?,
      instruction.operationWidth⟩ ∈ instruction.readable machine) :=
    inputs.carrierValue listed
  unfold Instruction.effect
  cases opcode : instruction.opcode with
  | nop => rfl
  | ret => rfl
  | unary op =>
      simp only [sameTarget, sameCheck, sameSource (by simp [readable, opcode])]
  | binary op =>
      have sameLeft : (instruction.operand1.location other none).read other
          instruction.operationWidth
            = (instruction.operand1.location machine none).read machine
              instruction.operationWidth :=
        Operand.read_congr inputs.size inputs.register1
          (inputs.byte _ (by simp [readable, opcode]))
      simp only [sameLeft, sameSource (by simp [readable, opcode])]
      rw [sameTarget]
  | push =>
      simp only [sameCheck, inputs.stackPointer (.inl opcode),
        sameSource (by simp [readable, opcode])]
  | pop =>
      have sameStack := inputs.stackPointer (.inr opcode)
      have sameSlot : (Location.memory (machine.register .r0)).read other
          instruction.operationWidth
            = (Location.memory (machine.register .r0)).read machine
              instruction.operationWidth := by
        show (other.memory.read _ _).mapError _ = (machine.memory.read _ _).mapError _
        rw [Memory.read_congr inputs.size (inputs.byte _ (by simp [readable, opcode]))]
      simp only [sameStack, sameSlot, sameTarget, sameCheck]
  | move form =>
      simp only [inputs.moveValue opcode, sameTarget, sameCheck]

theorem writable (inputs : instruction.SameInputs machine other) :
    instruction.writable other = instruction.writable machine := by
  have sameTarget := Operand.location_congr inputs.register1
  unfold Instruction.writable
  cases opcode : instruction.opcode with
  | push => simp only [inputs.stackPointer (.inl opcode)]
  | _ => simp only [sameTarget]

end Instruction.SameInputs

end

/-! ## Equal outputs -/

namespace Machine

/-- The machines hold the same in the places. -/
structure SameAt (places : List Place) (machine other : Machine) : Prop where
  register : ∀ place ∈ places, ∀ register, place.HasRegister register →
    other.register register = machine.register register
  byte : ∀ place ∈ places, ∀ address, place.HasByte address →
    other.memory.bytes[address]? = machine.memory.bytes[address]?

theorem SameAt.of_subset {places fewer : List Place} {machine other : Machine}
    (same : SameAt places machine other) (listed : fewer ⊆ places) :
    SameAt fewer machine other where
  register place there := same.register place (listed there)
  byte place there := same.byte place (listed there)

/-- A write leaves the same in its place on every machine, and spoils no other
place. -/
theorem SameAt.apply {places : List Place} {machine other : Machine}
    (same : SameAt places machine other) (sameSize : other.memory.size = machine.memory.size)
    (write : Write) : SameAt (write.place :: places) (machine.apply write) (other.apply write) where
  register := by
    intro place there register held
    rw [register_apply, register_apply]
    by_cases written : write.location = .register register
    · rw [if_pos written, if_pos written]
    · rw [if_neg written, if_neg written]
      rcases List.mem_cons.mp there with rfl | earlier
      · exact absurd held written
      · exact same.register place earlier register held
  byte := by
    intro place there address held
    rw [byte_apply, byte_apply, sameSize]
    by_cases written : write.place.HasByte address ∧ address < machine.memory.size
    · rw [if_pos written, if_pos written]
    · rw [if_neg written, if_neg written]
      rcases List.mem_cons.mp there with rfl | earlier
      · -- The byte would be written, so that it is behind the end of both memories.
        have behind : machine.memory.size ≤ address :=
          Nat.le_of_not_lt fun inside => written ⟨held, inside⟩
        rw [Array.getElem?_eq_none behind, Array.getElem?_eq_none (by rwa [← sameSize] at behind)]
      · exact same.byte place earlier address held

theorem SameAt.foldl_apply {places : List Place} {machine other : Machine}
    (same : SameAt places machine other) (sameSize : other.memory.size = machine.memory.size)
    (writes : List Write) :
    SameAt (writes.map (·.place) ++ places) (writes.foldl Machine.apply machine)
      (writes.foldl Machine.apply other) := by
  induction writes generalizing places machine other with
  | nil => exact same
  | cons write writes ih =>
      have later := ih (same.apply sameSize write)
        (by rw [size_memory_apply, size_memory_apply, sameSize])
      refine later.of_subset ?_
      simp

end Machine

/-- **Read footprint.** Two machines that agree in the size of memory, in the registers
of both operands, for a `PUSH` or a `POP` in the stack pointer, and in the ranges that
the instruction reads as far as these lie inside memory, are not told apart by it: it
fails on both with the same fault, or succeeds on both with the same outcome and
leaves the same values in the same places. All other registers and bytes, which may
differ, stay on each of them as they were. -/
theorem execute_depends_only_on_readable (instruction : Instruction) (machine other : Machine)
    (inputs : instruction.SameInputs machine other) :
    (∀ fault after, execute instruction machine = .error fault after →
      execute instruction other = .error fault other)
    ∧ (∀ outcome after, execute instruction machine = .ok outcome after →
      ∃ after', execute instruction other = .ok outcome after'
        ∧ instruction.writable other = instruction.writable machine
        ∧ Machine.SameAt (instruction.writable machine) after after'
        ∧ Machine.SameOutside (instruction.writable machine) machine after
        ∧ Machine.SameOutside (instruction.writable machine) other after') := by
  refine ⟨?_, ?_⟩
  · intro fault after failed
    rw [execute_eq_error_iff] at failed ⊢
    rw [inputs.effect]
    exact ⟨failed.1, rfl⟩
  · intro outcome after done
    obtain ⟨rfl, writes, resolves, rfl⟩ := execute_eq_ok_iff.mp done
    have resolvesToo : instruction.Resolves other writes := by
      rw [← Instruction.effect_eq_ok_iff, inputs.effect, Instruction.effect_eq_ok_iff]
      exact resolves
    have nowhere : Machine.SameAt [] machine other := ⟨by simp, by simp⟩
    have contents := nowhere.foldl_apply inputs.size writes
    rw [List.append_nil, resolves.places] at contents
    refine ⟨_, execute_eq_ok_iff.mpr ⟨rfl, writes, resolvesToo, rfl⟩, inputs.writable,
      contents, resolves.sameOutside, ?_⟩
    rw [← inputs.writable]
    exact resolvesToo.sameOutside

/-- An addition in memory and a division by zero, on two machines that differ in the
bytes around, in a register and in the instruction pointer. -/
theorem execute_depends_only_on_readable_elsewhere :
    let image : Memory := ⟨#[9, 9, 9, 9, 1, 0, 0, 0, 2, 0, 0, 0], by decide⟩
    let image' : Memory := ⟨#[0, 0, 0, 0, 1, 0, 0, 0, 2, 0, 0, 0], by decide⟩
    let machine := ((Machine.ofMemory image).setRegister .r1 4).setRegister .r2 8
    let other := (((Machine.ofMemory image').setRegister .r1 4).setRegister .r2 8).setRegister .r5 7
    let elsewhere := { other with ip := 3 }
    let sum : Memory := ⟨#[9, 9, 9, 9, 3, 0, 0, 0, 2, 0, 0, 0], by decide⟩
    let add : Instruction := ⟨.binary .add, ⟨.r1, true⟩, ⟨.r2, true⟩, .generic false none⟩
    let divide : Instruction := ⟨.binary .div, ⟨.r1, false⟩, ⟨.r3, false⟩, .generic false none⟩
    add.SameInputs machine elsewhere
      ∧ execute add machine = .ok .continue { machine with memory := sum }
      ∧ (∃ after, execute add elsewhere = .ok .continue after
        ∧ after.memory.bytes[4]? = sum.bytes[4]?
        ∧ after.memory.bytes[0]? = elsewhere.memory.bytes[0]?
        ∧ after.register .r5 = elsewhere.register .r5)
      ∧ divide.SameInputs machine elsewhere
      ∧ execute divide machine = .error .divisionByZero machine
      ∧ execute divide elsewhere = .error .divisionByZero elsewhere := by
  intro image image' machine other elsewhere sum add divide
  have inputs : add.SameInputs machine elsewhere := by
    refine ⟨rfl, rfl, rfl, fun _ => rfl, ?_⟩
    intro place listed _ address held
    have places : add.readable machine = [⟨.memory 4, .double⟩, ⟨.memory 8, .double⟩] := rfl
    rw [places, List.mem_cons, List.mem_singleton] at listed
    have bounds : 4 ≤ address ∧ address < 12 := by
      rcases listed with rfl | rfl
      · exact ⟨held.1, Nat.lt_of_lt_of_le held.2 (by decide)⟩
      · exact ⟨Nat.le_trans (by decide) held.1, held.2⟩
    have alike : ∀ address < 12, 4 ≤ address →
        elsewhere.memory.bytes[address]? = machine.memory.bytes[address]? := by decide
    exact alike address bounds.2 bounds.1
  have direct : divide.SameInputs machine elsewhere := by
    refine ⟨rfl, rfl, rfl, fun _ => rfl, ?_⟩
    intro place listed _ address held
    have places : divide.readable machine
        = [⟨.register .r1, .double⟩, ⟨.register .r3, .double⟩] := rfl
    rw [places, List.mem_cons, List.mem_singleton] at listed
    rcases listed with rfl | rfl
    · exact absurd held id
    · exact absurd held id
  have added : execute add machine = .ok .continue { machine with memory := sum } := by
    subst divide add sum elsewhere other machine image' image
    rfl
  have divided : execute divide machine = .error .divisionByZero machine := by
    subst divide add sum elsewhere other machine image' image
    rfl
  obtain ⟨_, succeeds⟩ := execute_depends_only_on_readable add machine elsewhere inputs
  obtain ⟨fails, _⟩ := execute_depends_only_on_readable divide machine elsewhere direct
  obtain ⟨after, addedToo, _, contents, _, frame⟩ := succeeds _ _ added
  have written : (⟨.memory 4, .double⟩ : Place) ∈ add.writable machine := List.mem_cons_self
  refine ⟨inputs, added, ⟨after, addedToo, contents.byte _ written 4 ?_, ?_, ?_⟩, direct, divided,
    fails _ _ divided⟩
  · exact ⟨by decide, by decide⟩
  · exact frame.byte 0 (by decide)
  · exact frame.register .r5 (by decide)

end RegisterVM
