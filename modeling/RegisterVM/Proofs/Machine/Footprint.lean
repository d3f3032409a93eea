import RegisterVM.Proofs.Machine.Resolution
import RegisterVM.Proofs.Machine.Trace

/-!
# What an instruction may write

`Instruction.writable` lists the places of a machine that an instruction may write,
with all addresses taken from the registers as they are before it: operand 1's
register or the bytes at its address, and the stack slot and the stack pointer of
`PUSH` and `POP`. These are the places of the writes that the instruction resolves
to (`Instruction.Resolves.places`), and a write changes nothing elsewhere
(`Machine.sameOutside_apply`).
-/

namespace RegisterVM

/-- A register, or as many bytes from an address on as the width has. -/
structure Place where
  location : Location
  width : Width
  deriving DecidableEq

/-- The place that the write fills. -/
def Write.place (write : Write) : Place :=
  ⟨write.location, write.width⟩

namespace Place

/-- The register is the place. -/
def HasRegister (place : Place) (register : Register) : Prop :=
  place.location = .register register

/-- The byte at an address is one of the place's. -/
def HasByte (place : Place) (address : Nat) : Prop :=
  match place.location with
  | .register _ => False
  | .memory start => start.toNat ≤ address ∧ address < start.toNat + place.width.bytes

instance (place : Place) (register : Register) : Decidable (place.HasRegister register) :=
  inferInstanceAs (Decidable (place.location = .register register))

instance (place : Place) (address : Nat) : Decidable (place.HasByte address) := by
  unfold HasByte
  split <;> infer_instance

end Place

namespace Instruction

/-- The places that the instruction may write. -/
def writable (instruction : Instruction) (machine : Machine) : List Place :=
  let width := instruction.operationWidth
  let stackPointer : Place := ⟨.register .r0, .quad⟩
  match instruction.opcode with
  | .nop | .ret => []
  | .unary _ | .binary _ => [⟨instruction.operand1.location machine none, width⟩]
  | .move form =>
      [⟨instruction.operand1.location machine (instruction.moveIndexes form).1, form.valueWidth⟩]
  | .push => [⟨.memory (machine.register .r0 - UInt64.ofNat width.bytes), width⟩, stackPointer]
  | .pop => [⟨instruction.operand1.location machine instruction.carrierIndex?, width⟩, stackPointer]

theorem Resolves.places {instruction : Instruction} {machine : Machine} {writes : List Write}
    (resolves : instruction.Resolves machine writes) :
    writes.map (·.place) = instruction.writable machine := by
  unfold writable
  cases resolves with
  | nop opcode => rw [opcode]; rfl
  | ret opcode => rw [opcode]; rfl
  | unary opcode => rw [opcode]; rfl
  | binary opcode => rw [opcode]; rfl
  | push opcode => rw [opcode]; rfl
  | pop opcode => rw [opcode]; rfl
  | move opcode => rw [opcode]; rfl

end Instruction

namespace Machine

/-- A write sets the register that it goes to. -/
theorem register_apply (machine : Machine) (write : Write) (register : Register) :
    (machine.apply write).register register
      = if write.location = .register register then write.width.truncate write.value
        else machine.register register := by
  obtain ⟨location, width, value⟩ := write
  cases location with
  | register target =>
      show (machine.setRegister target _).register register = _
      rw [register_setRegister]
      simp only [Location.register.injEq]
  | memory start => rfl

/-- A write sets the bytes that it goes to, as far as they lie inside memory. -/
theorem byte_apply (machine : Machine) (write : Write) (address : Nat) :
    (machine.apply write).memory.bytes[address]?
      = if write.place.HasByte address ∧ address < machine.memory.size then
          match write.location with
          | .register _ => none
          | .memory start =>
              (LittleEndian.encode write.width.bytes write.value.toNat)[address - start.toNat]?
        else machine.memory.bytes[address]? := by
  obtain ⟨location, width, value⟩ := write
  cases location with
  | register target =>
      rw [if_neg fun there => there.1]
      rfl
  | memory start =>
      show (machine.memory.store start _).bytes[address]? = _
      rw [Memory.getElem?_store, LittleEndian.length_encode]
      simp only [Write.place, Place.HasByte, and_assoc]

/-- The machines hold the same everywhere but in the places. -/
structure SameOutside (places : List Place) (machine other : Machine) : Prop where
  register : ∀ register, (∀ place ∈ places, ¬place.HasRegister register) →
    other.register register = machine.register register
  byte : ∀ address, (∀ place ∈ places, ¬place.HasByte address) →
    other.memory.bytes[address]? = machine.memory.bytes[address]?

/-- A write changes nothing outside its place. -/
theorem sameOutside_apply (machine : Machine) (write : Write) :
    SameOutside [write.place] machine (machine.apply write) where
  register register outside := by
    rw [register_apply, if_neg]
    exact outside write.place List.mem_cons_self
  byte address outside := by
    rw [byte_apply, if_neg]
    intro there
    exact outside write.place List.mem_cons_self there.1

theorem SameOutside.trans {front later : List Place} {machine middle other : Machine}
    (first : SameOutside front machine middle) (second : SameOutside later middle other) :
    SameOutside (front ++ later) machine other where
  register register outside := by
    rw [List.forall_mem_append] at outside
    rw [second.register register outside.2, first.register register outside.1]
  byte address outside := by
    rw [List.forall_mem_append] at outside
    rw [second.byte address outside.2, first.byte address outside.1]

theorem sameOutside_foldl_apply (writes : List Write) (machine : Machine) :
    SameOutside (writes.map (·.place)) machine (writes.foldl apply machine) := by
  induction writes generalizing machine with
  | nil => exact ⟨fun _ _ => rfl, fun _ _ => rfl⟩
  | cons write writes ih => exact (machine.sameOutside_apply write).trans (ih _)

end Machine

theorem Instruction.Resolves.sameOutside {instruction : Instruction} {machine : Machine}
    {writes : List Write} (resolves : instruction.Resolves machine writes) :
    Machine.SameOutside (instruction.writable machine) machine
      (writes.foldl Machine.apply machine) := by
  rw [← resolves.places]
  exact Machine.sameOutside_foldl_apply writes machine

/-- **Write frame.** An instruction that succeeds keeps the instruction pointer and
the size of memory, and halts exactly if it is a `RET`. A `NOP` and a `RET` change
nothing. Any other instruction changes registers and bytes at most in the places that
it may write, by the registers as they were before it: the register of operand 1 if it
is direct, else the bytes at its address, for a move and a `POP` at its displaced
address; and for `PUSH` and `POP` the stack pointer, for `PUSH` with the slot
below it. -/
theorem execute_changes_only_writable (instruction : Instruction) (machine after : Machine)
    (outcome : Outcome) (done : execute instruction machine = .ok outcome after) :
    after.ip = machine.ip ∧ after.memory.size = machine.memory.size
    ∧ (outcome = .halt ↔ instruction.opcode = .ret)
    ∧ (instruction.opcode = .nop ∨ instruction.opcode = .ret → after = machine)
    ∧ Machine.SameOutside (instruction.writable machine) machine after := by
  obtain ⟨sameIp, sameSize, sameOutcome⟩ := execute_ok done
  obtain ⟨-, writes, resolves, rfl⟩ := execute_eq_ok_iff.mp done
  refine ⟨sameIp, sameSize, ?_, ?_, resolves.sameOutside⟩
  · rw [sameOutcome]
    exact Opcode.outcome_eq_halt_iff _
  · intro silent
    have nowhere := resolves.places
    rcases silent with opcode | opcode <;>
    · rw [Instruction.writable, opcode] at nowhere
      rw [List.map_eq_nil_iff.mp nowhere]
      rfl

/-- A `POP` through an address that wraps, to bytes that overlap the slot it takes,
and a `RET`. -/
theorem execute_changes_only_writable_popping :
    let image : Memory := ⟨#[0, 0, 0, 0, 0x11, 0x22, 0x33, 0x44, 0, 0, 0, 0], by decide⟩
    let machine := ((Machine.ofMemory image).setRegister .r0 4).setRegister .r1 0xfffffffffffffffe
    let filled : Memory := ⟨#[0, 0, 0, 0, 0x11, 0x22, 0x11, 0x22, 0x33, 0x44, 0, 0], by decide⟩
    let after := { machine.setRegister .r0 8 with memory := filled }
    let pop : Instruction := ⟨.pop, ⟨.r1, true⟩, ⟨.r0, false⟩, .generic false (some 0x1001)⟩
    let ret : Instruction := ⟨.ret, ⟨.r1, true⟩, ⟨.r0, false⟩, .generic false (some 0x1001)⟩
    execute pop machine = .ok .continue after
      ∧ pop.writable machine = [⟨.memory 6, .double⟩, ⟨.register .r0, .quad⟩]
      ∧ after.register .r1 = machine.register .r1
      ∧ after.memory.bytes[5]? = machine.memory.bytes[5]?
      ∧ after.memory.bytes[10]? = machine.memory.bytes[10]?
      ∧ (∃ outcome same, execute ret machine = .ok outcome same ∧ outcome = .halt
        ∧ same = machine) := by
  intro image machine filled after pop ret
  have popped : execute pop machine = .ok .continue after := by
    subst ret pop after filled machine image
    rfl
  have returned : execute ret machine = .ok .halt machine := by
    subst ret pop after filled machine image
    rfl
  have places : pop.writable machine = [⟨.memory 6, .double⟩, ⟨.register .r0, .quad⟩] := by
    subst ret pop after filled machine image
    rfl
  obtain ⟨_, _, _, _, frame⟩ := execute_changes_only_writable pop machine after _ popped
  obtain ⟨_, _, halts, silent, _⟩ := execute_changes_only_writable ret machine machine _ returned
  rw [places] at frame
  exact ⟨popped, places, frame.register .r1 (by decide), frame.byte 5 (by decide),
    frame.byte 10 (by decide), _, _, returned, halts.mpr rfl, silent (.inr rfl)⟩

end RegisterVM
