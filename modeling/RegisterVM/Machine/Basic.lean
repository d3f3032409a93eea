import RegisterVM.Instruction.Basic
import RegisterVM.Memory

/-!
# The state of the machine

A machine is a register file, an instruction pointer and a memory. Nothing else
is kept from one instruction to the next.
-/

namespace RegisterVM

/-- The state of a machine. The instruction pointer is the address of the
instruction that comes next. -/
structure Machine where
  registers : Vector UInt64 8
  ip : UInt64
  memory : Memory
  deriving DecidableEq

namespace Machine

/-- The machine with `memory` and all else zero. -/
def ofMemory (memory : Memory) : Machine where
  registers := Vector.replicate 8 0
  ip := 0
  memory := memory

/-- What a register holds. -/
def register (machine : Machine) (register : Register) : UInt64 :=
  machine.registers[register.index]

/-- The machine with `value` in a register. -/
def setRegister (machine : Machine) (register : Register) (value : UInt64) : Machine :=
  { machine with registers := machine.registers.set register.index value }

/-- The machine with its instruction pointer `size` bytes further on, wrapping
around the address space. -/
def advance (machine : Machine) (size : Nat) : Machine :=
  { machine with ip := machine.ip + UInt64.ofNat size }

/-- Copies a program or its data into memory from `address` on. -/
def load (address : UInt64) (bytes : List UInt8) : EStateM MachineFault Machine Unit :=
  fun machine =>
    match Memory.load address bytes machine.memory with
    | .error fault memory => .error (.execution (.memory fault)) { machine with memory }
    | .ok () memory => .ok () { machine with memory }

/-- A register holds the value last set, and setting one leaves the others as
they were. -/
theorem register_setRegister (machine : Machine) (target source : Register) (value : UInt64) :
    (machine.setRegister target value).register source
      = if target = source then value else machine.register source := by
  simp only [register, setRegister, Fin.getElem_fin, Vector.getElem_set]
  by_cases same : target = source
  · rw [if_pos same, if_pos (congrArg (·.index.val) same)]
  · rw [if_neg same, if_neg]
    exact fun h => same (Register.index_injective (Fin.eq_of_val_eq h))

end Machine

end RegisterVM
