import RegisterVM.Proofs.Machine.Lookups
import RegisterVM.Proofs.Machine.Results

/-!
# The upper halves of registers

A 32-bit operation on registers reads the lower halves of its operands and clears the
upper half of its result. Two machines whose registers agree in their lower halves are
therefore not told apart by it, whatever stands in the upper ones
(`execute_ignores_upper_halves`): the sum with the immediate, which is made in 64 bits,
is the same once it is cut to 32 (`Width.truncate_add_congr`), and everything after it,
the test of a divisor included, works on what was cut.
-/

namespace RegisterVM

/-- The registers of the machines agree in their low 32 bits. -/
def Machine.SameLowerHalves (machine other : Machine) : Prop :=
  ∀ register,
    (other.register register).toNat % 2 ^ 32 = (machine.register register).toNat % 2 ^ 32

/-- The instruction is a 32-bit arithmetic operation, and both of its operands are
registers. -/
structure Instruction.WorksOnLowerHalves (instruction : Instruction) : Prop where
  arithmetic : (∃ op, instruction.opcode = .unary op) ∨ ∃ op, instruction.opcode = .binary op
  narrow : ∃ immediate, instruction.arguments = .generic false immediate
  direct1 : instruction.operand1.indirect = false
  direct2 : instruction.operand2.indirect = false

/-! ## Cutting -/

/-- A sum that is cut to the width depends on as much of its terms alone. -/
theorem Width.truncate_add_congr {width : Width} {left right left' right' : UInt64}
    (sameLeft : width.truncate left = width.truncate left')
    (sameRight : width.truncate right = width.truncate right') :
    width.truncate (left + right) = width.truncate (left' + right') := by
  have divides : 2 ^ width.bits ∣ 2 ^ 64 := Nat.pow_dvd_pow 2 width.bits_le
  rw [truncate_eq_iff] at sameLeft sameRight ⊢
  rw [UInt64.toNat_add, UInt64.toNat_add, Nat.mod_mod_of_dvd _ divides,
    Nat.mod_mod_of_dvd _ divides, Nat.add_mod, sameLeft, sameRight, ← Nat.add_mod]

theorem Machine.SameLowerHalves.truncate {machine other : Machine}
    (same : machine.SameLowerHalves other) (register : Register) :
    Width.double.truncate (other.register register)
      = Width.double.truncate (machine.register register) :=
  Width.truncate_eq_iff.mpr (same register)

/-- An operation can fail for its divisor alone. -/
theorem BinaryOp.fault_of_eval {op : BinaryOp} {width : Width} {left right : UInt64}
    {fault : ExecutionFault} (failed : op.eval width left right = .error fault) :
    fault = .divisionByZero := by
  cases op with
  | div | divu | mod | modu =>
      simp only [eval] at failed
      split at failed
      next =>
        injection failed with same
        exact same.symm
      next => contradiction
  | add | sub | mul | mulu | and | or | xor | shl | shr => contradiction

/-! ## Operations on registers -/

namespace Instruction.WorksOnLowerHalves

variable {instruction : Instruction} (works : instruction.WorksOnLowerHalves)

include works

theorem operationWidth : instruction.operationWidth = .double := by
  obtain ⟨immediate, arguments⟩ := works.narrow
  rw [Instruction.operationWidth, isWide, arguments]
  rfl

/-- The source is the lower half of the sum of a register and the immediate. -/
theorem carrierValue (machine : Machine) :
    instruction.carrierValue machine
      = .ok (Width.double.truncate (machine.register instruction.operand2.register
        + (instruction.immediate?.map UInt32.toUInt64).getD 0)) := by
  have carrier : instruction.carrier = instruction.operand2 := by
    rcases works.arithmetic with ⟨op, opcode⟩ | ⟨op, opcode⟩
    · rw [Instruction.carrier, opcode]
    · rw [Instruction.carrier, opcode]
  rw [carrierValue_of_direct (carrier ▸ works.direct2), carrier, works.operationWidth]

/-- The instruction sets one register, or divides by zero. -/
theorem effect_cases (machine : Machine) :
    (∃ value, instruction.effect machine
        = .ok [⟨.register instruction.operand1.register, .double, value⟩])
      ∨ instruction.effect machine = .error .divisionByZero := by
  unfold effect
  rw [works.carrierValue machine, Operand.location_of_direct works.direct1, works.operationWidth]
  generalize Width.double.truncate (_ + _) = right
  rcases works.arithmetic with ⟨op, opcode⟩ | ⟨op, opcode⟩
  · rw [opcode]
    exact .inl ⟨op.eval .double right, rfl⟩
  · rw [opcode]
    show (∃ value, (op.eval .double _ right >>= fun _ => _) = _)
      ∨ (op.eval .double _ right >>= fun _ => _) = _
    generalize Width.double.truncate _ = left
    cases computed : op.eval .double left right with
    | error fault => exact .inr (congrArg Except.error (BinaryOp.fault_of_eval computed))
    | ok result => exact .inl ⟨result, rfl⟩

/-- It comes to the same on machines whose registers agree in their lower halves. -/
theorem effect_congr {machine other : Machine} (same : machine.SameLowerHalves other) :
    instruction.effect other = instruction.effect machine := by
  have sameSource : instruction.carrierValue other = instruction.carrierValue machine := by
    rw [works.carrierValue, works.carrierValue, Width.truncate_add_congr (same.truncate _) rfl]
  have target := Operand.location_of_direct works.direct1
  unfold effect
  rcases works.arithmetic with ⟨op, opcode⟩ | ⟨op, opcode⟩
  · simp only [opcode, sameSource, target, Location.check]
  · simp only [opcode, sameSource, target, works.operationWidth, Location.read, same.truncate]

end Instruction.WorksOnLowerHalves

/-- **Upper halves have no say.** A 32-bit arithmetic operation whose operands are both registers
does the same on any two machines whose registers agree in their low 32 bits, with any immediate,
and also where both operands are one register: on both it sets the register of operand 1 to the
same word, which has nothing in its upper half, and leaves all else of each machine as it was, or
on both it divides by zero and leaves each machine as it was. -/
theorem execute_ignores_upper_halves (instruction : Instruction) (machine other : Machine)
    (works : instruction.WorksOnLowerHalves) (same : machine.SameLowerHalves other) :
    (∃ result : UInt64, result.toNat < 2 ^ 32
      ∧ execute instruction machine
        = .ok .continue (machine.setRegister instruction.operand1.register result)
      ∧ execute instruction other
        = .ok .continue (other.setRegister instruction.operand1.register result))
    ∨ (execute instruction machine = .error .divisionByZero machine
      ∧ execute instruction other = .error .divisionByZero other) := by
  have sameEffect := works.effect_congr same
  have goesOn : instruction.opcode.outcome = .continue := by
    rcases works.arithmetic with ⟨op, opcode⟩ | ⟨op, opcode⟩
    · rw [opcode]; rfl
    · rw [opcode]; rfl
  rcases works.effect_cases machine with ⟨value, effect⟩ | effect
  · refine .inl ⟨Width.double.truncate value, Width.double.toNat_truncate_lt value, ?_, ?_⟩
    · rw [execute_eq, effect, goesOn]
      rfl
    · rw [execute_eq, sameEffect, effect, goesOn]
      rfl
  · refine .inr ⟨?_, ?_⟩
    · rw [execute_eq, effect]
    · rw [execute_eq, sameEffect, effect]

/-- A signed division between registers with rubbish in their upper halves, on machines that share
nothing else, and the same by a sum that is zero in its lower half alone. -/
theorem execute_ignores_upper_halves_dividing :
    let machine := ((Machine.ofMemory (Memory.zeroed 4)).setRegister .r1 0xdeadbeeffffffff8
      ).setRegister .r2 0x1234567800000002
    let other := { ((Machine.ofMemory (Memory.zeroed 0)).setRegister .r1 0xfffffff8
      ).setRegister .r2 0xffffffff00000002 with ip := 7 }
    let divide (immediate : Option UInt32) : Instruction :=
      ⟨.binary .div, ⟨.r1, false⟩, ⟨.r2, false⟩, .generic false immediate⟩
    (∀ immediate, (divide immediate).WorksOnLowerHalves)
      ∧ machine.SameLowerHalves other
      ∧ execute (divide none) machine = .ok .continue (machine.setRegister .r1 0xfffffffc)
      ∧ execute (divide none) other = .ok .continue (other.setRegister .r1 0xfffffffc)
      ∧ execute (divide (some 0xfffffffe)) machine = .error .divisionByZero machine
      ∧ execute (divide (some 0xfffffffe)) other = .error .divisionByZero other := by
  intro machine other divide
  have works (immediate : Option UInt32) : (divide immediate).WorksOnLowerHalves :=
    ⟨.inr ⟨.div, rfl⟩, ⟨immediate, rfl⟩, rfl, rfl⟩
  have same : machine.SameLowerHalves other := by
    intro register
    cases register <;> decide +kernel
  have divided : execute (divide none) machine
      = .ok .continue (machine.setRegister .r1 0xfffffffc) := by
    subst divide other machine
    rfl
  have refused : execute (divide (some 0xfffffffe)) machine = .error .divisionByZero machine := by
    subst divide other machine
    rfl
  refine ⟨works, same, divided, ?_, refused, ?_⟩
  · rcases execute_ignores_upper_halves _ machine other (works none) same with
      ⟨result, -, set, setToo⟩ | ⟨failed, -⟩
    · -- What the register holds is read off the machine that is known.
      rw [divided] at set
      have held : (machine.setRegister .r1 0xfffffffc).register .r1
          = (machine.setRegister .r1 result).register .r1 :=
        congrArg (·.register .r1) (EStateM.Result.ok.inj set).2
      rw [Machine.register_setRegister, if_pos rfl, Machine.register_setRegister, if_pos rfl]
        at held
      rw [setToo, ← held]
    · rw [divided] at failed
      injection failed
  · rcases execute_ignores_upper_halves _ machine other (works _) same with
      ⟨result, -, set, -⟩ | ⟨-, failedToo⟩
    · rw [refused] at set
      injection set
    · exact failedToo

end RegisterVM
