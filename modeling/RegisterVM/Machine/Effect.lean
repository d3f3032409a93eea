import RegisterVM.Machine.Arithmetic
import RegisterVM.Machine.Basic

/-!
# Effects of instructions

What an instruction will do can be told before it does anything.
`Instruction.effect` resolves the operands on the machine as it is, checks all
that can fail, and lists the writes to be done; `Machine.apply` then does them,
which cannot fail. That carrying an instruction out access by access comes to
the same is `execute_eq`.

The operand that carries the immediate is read as register plus immediate if it
is direct, and at the register's address displaced by the immediate if it is
indirect. A result goes to the register of operand 1, or to the address in it.
-/

namespace RegisterVM

/-- A place that holds a value. -/
inductive Location where
  | register (register : Register)
  | memory (address : UInt64)
  deriving DecidableEq

/-- A value to be stored at a location. -/
structure Write where
  location : Location
  width : Width
  value : UInt64
  deriving DecidableEq

/-- The location that an operand names: its register, or an address counted from
what the register holds. -/
def Operand.location (operand : Operand) (machine : Machine) (index : Option NaturalIndex) :
    Location :=
  if operand.indirect then
    .memory (displace index (machine.register operand.register))
  else
    .register operand.register

namespace Location

/-- The low bytes of what the location holds. -/
def read (location : Location) (machine : Machine) (width : Width) :
    Except ExecutionFault UInt64 :=
  match location with
  | register source => .ok (width.truncate (machine.register source))
  | memory address => (machine.memory.read address width).mapError .memory

/-- Refuses a location at which a value of the width cannot be stored. -/
def check (location : Location) (machine : Machine) (width : Width) :
    Except ExecutionFault Unit :=
  match location with
  | register _ => .ok ()
  | memory address => (machine.memory.check address width.bytes).mapError .memory

end Location

namespace Machine

/-- Does a write. A register takes the value zero-extended. -/
def apply (machine : Machine) (write : Write) : Machine :=
  match write.location with
  | .register target => machine.setRegister target (write.width.truncate write.value)
  | .memory address =>
      { machine with
        memory :=
          machine.memory.store address
            (LittleEndian.encode write.width.bytes write.value.toNat) }

end Machine

namespace Instruction

/-- The width of a generic operation. -/
def operationWidth (instruction : Instruction) : Width :=
  Width.natural instruction.isWide

/-- The value of the operand that carries the immediate. -/
def carrierValue (instruction : Instruction) (machine : Machine) :
    Except ExecutionFault UInt64 :=
  let carrier := instruction.carrier
  let width := instruction.operationWidth
  if carrier.indirect then
    (carrier.location machine instruction.carrierIndex?).read machine width
  else
    let immediate := (instruction.immediate?.map UInt32.toUInt64).getD 0
    .ok (width.truncate (machine.register carrier.register + immediate))

/-- The indexes of a move's operands, which only the arguments of a move
hold. -/
def moveIndexes (instruction : Instruction) (form : MoveForm) :
    Option NaturalIndex × Option NaturalIndex :=
  match instruction.arguments with
  | .generic .. => (none, none)
  | .move _ _ index1 index2 =>
      (index1.map (NaturalIndex.decode form.indexWidth),
        index2.map (NaturalIndex.decode form.indexWidth))

/-- The value that a move copies. The index of a direct source is added to what
its register holds. -/
def moveValue (instruction : Instruction) (form : MoveForm) (machine : Machine) :
    Except ExecutionFault UInt64 :=
  let source := instruction.operand2
  let index := (instruction.moveIndexes form).2
  if source.indirect then
    (source.location machine index).read machine form.valueWidth
  else
    .ok (form.valueWidth.truncate (displace index (machine.register source.register)))

/-- The writes that the instruction comes to on `machine`, in their order, or
the first fault of those that keep it from being carried out. -/
def effect (instruction : Instruction) (machine : Machine) :
    Except ExecutionFault (List Write) :=
  let width := instruction.operationWidth
  let stackBytes := UInt64.ofNat width.bytes
  match instruction.opcode with
  | .nop | .ret => .ok []
  | .unary op => do
      let source ← instruction.carrierValue machine
      let target := instruction.operand1.location machine none
      target.check machine width
      return [⟨target, width, op.eval width source⟩]
  | .binary op => do
      let target := instruction.operand1.location machine none
      let left ← target.read machine width
      let right ← instruction.carrierValue machine
      let result ← op.eval width left right
      return [⟨target, width, result⟩]
  | .push => do
      let value ← instruction.carrierValue machine
      let top := machine.register .r0 - stackBytes
      (Location.memory top).check machine width
      return [⟨.memory top, width, value⟩, ⟨.register .r0, .quad, top⟩]
  | .pop => do
      let top := machine.register .r0
      let value ← (Location.memory top).read machine width
      let target := instruction.operand1.location machine instruction.carrierIndex?
      target.check machine width
      return [⟨target, width, value⟩, ⟨.register .r0, .quad, top + stackBytes⟩]
  | .move form => do
      let value ← instruction.moveValue form machine
      let target := instruction.operand1.location machine (instruction.moveIndexes form).1
      target.check machine form.valueWidth
      return [⟨target, form.valueWidth, value⟩]

end Instruction

/-! ## What no write changes -/

@[simp] theorem Machine.ip_apply (machine : Machine) (write : Write) :
    (machine.apply write).ip = machine.ip := by
  unfold apply
  split <;> rfl

@[simp] theorem Machine.size_memory_apply (machine : Machine) (write : Write) :
    (machine.apply write).memory.size = machine.memory.size := by
  unfold apply
  split
  next => rfl
  next => exact Memory.size_store _ _ _

end RegisterVM
