import RegisterVM.Machine.Effect

/-!
# Execution

`execute` carries out one instruction on a machine, one access after the other:
operands are read where their turn comes, and a store may still be refused after
everything before it went well. It never moves the instruction pointer and never
changes the size of memory.

`execute_eq` says that this order of accesses comes to all of the instruction's
writes, or to none of them.
-/

namespace RegisterVM

/-- Whether to go on after an instruction. -/
inductive Outcome where
  | continue
  | halt
  deriving DecidableEq

/-- What follows an instruction of the opcode: only `RET` halts. -/
def Opcode.outcome : Opcode → Outcome
  | ret => .halt
  | _ => .continue

/-- Looks something up on the machine as it is by now. -/
def inspect {α : Type} (look : Machine → Except ExecutionFault α) :
    EStateM ExecutionFault Machine α :=
  fun machine =>
    match look machine with
    | .error fault => .error fault machine
    | .ok value => .ok value machine

/-- Stores the low bytes of a value at the location. A register takes them
zero-extended, memory may refuse them. -/
def Location.store (location : Location) (width : Width) (value : UInt64) :
    EStateM ExecutionFault Machine Unit :=
  fun machine =>
    match location with
    | register target => .ok () (machine.setRegister target (width.truncate value))
    | memory address =>
        match Memory.write address width value machine.memory with
        | .error fault after => .error (.memory fault) { machine with memory := after }
        | .ok () after => .ok () { machine with memory := after }

/-- The accesses of an instruction, in their order. -/
def Instruction.carryOut (instruction : Instruction) : EStateM ExecutionFault Machine Unit := do
  let width := instruction.operationWidth
  let stackBytes := UInt64.ofNat width.bytes
  let before ← get
  match instruction.opcode with
  | .nop | .ret => return
  | .unary op =>
      let target := instruction.operand1.location before none
      let source ← inspect instruction.carrierValue
      target.store width (op.eval width source)
  | .binary op =>
      let target := instruction.operand1.location before none
      let left ← inspect fun machine => target.read machine width
      let right ← inspect instruction.carrierValue
      let result ← inspect fun _ => op.eval width left right
      target.store width result
  | .push =>
      let value ← inspect instruction.carrierValue
      let top := before.register .r0 - stackBytes
      (Location.memory top).store width value
      (Location.register .r0).store .quad top
  | .pop =>
      let top := before.register .r0
      let value ← inspect fun machine => (Location.memory top).read machine width
      let target := instruction.operand1.location before instruction.carrierIndex?
      target.store width value
      (Location.register .r0).store .quad (top + stackBytes)
  | .move form =>
      let value ← inspect fun machine => instruction.moveValue form machine
      let target := instruction.operand1.location before (instruction.moveIndexes form).1
      target.store form.valueWidth value

/-- Carries out an instruction, or fails. -/
def execute (instruction : Instruction) : EStateM ExecutionFault Machine Outcome := do
  instruction.carryOut
  return instruction.opcode.outcome

/-! ## All of the writes, or none -/

theorem inspect_bind {α β : Type} (look : Machine → Except ExecutionFault α)
    (next : α → EStateM ExecutionFault Machine β) (machine : Machine) :
    (inspect look >>= next) machine =
      match look machine with
      | .error fault => .error fault machine
      | .ok value => next value machine := by
  simp only [bind, EStateM.bind, inspect]
  cases look machine <;> rfl

/-- A store is one write, unless the location refuses it. -/
theorem Location.store_eq (location : Location) (width : Width) (value : UInt64)
    (machine : Machine) :
    location.store width value machine =
      match location.check machine width with
      | .error fault => .error fault machine
      | .ok () => .ok () (machine.apply ⟨location, width, value⟩) := by
  cases location with
  | register target => rfl
  | memory address =>
      simp only [store, check, Memory.write, Memory.load, LittleEndian.length_encode]
      cases machine.memory.check address width.bytes <;> rfl

theorem Location.store_bind {β : Type} (location : Location) (width : Width) (value : UInt64)
    (next : Unit → EStateM ExecutionFault Machine β) (machine : Machine) :
    (location.store width value >>= next) machine =
      match location.check machine width with
      | .error fault => .error fault machine
      | .ok () => next () (machine.apply ⟨location, width, value⟩) := by
  simp only [bind, EStateM.bind, store_eq]
  cases location.check machine width <;> rfl

/-- What could be read at a location can be overwritten there. -/
theorem Location.check_of_read {location : Location} {machine : Machine} {width : Width}
    {value : UInt64} (read : location.read machine width = .ok value) :
    location.check machine width = .ok () := by
  cases location with
  | register source => rfl
  | memory address =>
      simp only [Location.read, Memory.read] at read
      simp only [check]
      cases checked : machine.memory.check address width.bytes with
      | error fault =>
          rw [checked] at read
          contradiction
      | ok _ => rfl

/-- The accesses of an instruction come to the writes that its effect lists. -/
theorem Instruction.carryOut_eq (instruction : Instruction) (machine : Machine) :
    instruction.carryOut machine =
      match instruction.effect machine with
      | .error fault => .error fault machine
      | .ok writes => .ok () (writes.foldl Machine.apply machine) := by
  have opened {α : Type} (next : Machine → EStateM ExecutionFault Machine α) :
      (get >>= next) machine = next machine machine := rfl
  simp only [carryOut, effect, opened]
  cases instruction.opcode with
  | nop => rfl
  | ret => rfl
  | unary op =>
      simp only [inspect_bind, Location.store_eq]
      cases instruction.carrierValue machine with
      | error fault => rfl
      | ok source =>
          simp only [bind, Except.bind]
          cases (instruction.operand1.location machine none).check machine
            instruction.operationWidth <;> rfl
  | binary op =>
      simp only [inspect_bind, Location.store_eq]
      cases read : (instruction.operand1.location machine none).read machine
          instruction.operationWidth with
      | error fault => rfl
      | ok left =>
          simp only [bind, Except.bind]
          cases instruction.carrierValue machine with
          | error fault => rfl
          | ok right =>
              simp only
              cases op.eval instruction.operationWidth left right with
              | error fault => rfl
              | ok result =>
                  simp only [Location.check_of_read read]
                  rfl
  | push =>
      simp only [inspect_bind, Location.store_bind, Location.store_eq]
      cases instruction.carrierValue machine with
      | error fault => rfl
      | ok value =>
          simp only [bind, Except.bind]
          cases (Location.memory (machine.register .r0
            - UInt64.ofNat instruction.operationWidth.bytes)).check machine
            instruction.operationWidth <;> rfl
  | pop =>
      simp only [inspect_bind, Location.store_bind, Location.store_eq]
      cases (Location.memory (machine.register .r0)).read machine
          instruction.operationWidth with
      | error fault => rfl
      | ok value =>
          simp only [bind, Except.bind]
          cases (instruction.operand1.location machine instruction.carrierIndex?).check machine
            instruction.operationWidth <;> rfl
  | move form =>
      simp only [inspect_bind, Location.store_eq]
      cases instruction.moveValue form machine with
      | error fault => rfl
      | ok value =>
          simp only [bind, Except.bind]
          cases (instruction.operand1.location machine (instruction.moveIndexes form).1).check
            machine form.valueWidth <;> rfl

theorem execute_eq (instruction : Instruction) (machine : Machine) :
    execute instruction machine =
      match instruction.effect machine with
      | .error fault => .error fault machine
      | .ok writes => .ok instruction.opcode.outcome (writes.foldl Machine.apply machine) := by
  simp only [execute, bind, EStateM.bind, Instruction.carryOut_eq]
  cases instruction.effect machine <;> rfl

/-- A failing instruction leaves the machine as it was. -/
theorem execute_error {instruction : Instruction} {machine after : Machine}
    {fault : ExecutionFault} (failed : execute instruction machine = .error fault after) :
    after = machine := by
  rw [execute_eq] at failed
  split at failed
  next =>
    injection failed with _ same
    exact same.symm
  next => contradiction

@[simp] theorem Machine.ip_foldl_apply (writes : List Write) (machine : Machine) :
    (writes.foldl apply machine).ip = machine.ip := by
  induction writes generalizing machine with
  | nil => rfl
  | cons write writes ih => rw [List.foldl_cons, ih, ip_apply]

@[simp] theorem Machine.size_memory_foldl_apply (writes : List Write) (machine : Machine) :
    (writes.foldl apply machine).memory.size = machine.memory.size := by
  induction writes generalizing machine with
  | nil => rfl
  | cons write writes ih => rw [List.foldl_cons, ih, size_memory_apply]

/-- An instruction that succeeds keeps the instruction pointer and the size of
memory, and its outcome is that of its opcode. -/
theorem execute_ok {instruction : Instruction} {machine after : Machine} {outcome : Outcome}
    (done : execute instruction machine = .ok outcome after) :
    after.ip = machine.ip ∧ after.memory.size = machine.memory.size
      ∧ outcome = instruction.opcode.outcome := by
  rw [execute_eq] at done
  split at done
  next => contradiction
  next writes =>
    injection done with sameOutcome sameMachine
    subst sameMachine
    exact ⟨Machine.ip_foldl_apply _ _, Machine.size_memory_foldl_apply _ _, sameOutcome.symm⟩

end RegisterVM
