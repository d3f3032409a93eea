import RegisterVM.Machine.Execute

/-!
# What an instruction looks up

An instruction is carried out by its opcode and its operands, and by what the opcode
looks up in its arguments: a move its two indexes, any other instruction its width and
the operand with the immediate, of which `NOP` and `RET` want nothing and `POP` only the
place. Instructions that look up the same have the same effect
(`effect_congr_generic`, `effect_congr_move`).
-/

namespace RegisterVM

/-- Whether the value of the operand with the immediate is looked up. A `POP` stores to
this operand, and `NOP` and `RET` have no use for it. -/
def Opcode.readsCarrier : Opcode → Bool
  | unary _ | binary _ | push => true
  | _ => false

/-- A direct operand is its register, whatever index it has. -/
theorem Operand.location_of_direct {operand : Operand} (direct : operand.indirect = false)
    (machine : Machine) (index : Option NaturalIndex) :
    operand.location machine index = .register operand.register := by
  rw [location, direct]
  rfl

namespace Instruction

section

variable {instruction other : Instruction}

/-- A direct operand with an immediate has the sum of its register and the immediate for its
value. -/
theorem carrierValue_of_direct (direct : instruction.carrier.indirect = false)
    (machine : Machine) :
    instruction.carrierValue machine
      = .ok (instruction.operationWidth.truncate (machine.register instruction.carrier.register
        + (instruction.immediate?.map UInt32.toUInt64).getD 0)) := by
  rw [carrierValue, direct]
  rfl

/-- Generic instructions of one opcode and one width, with the same value or the same
place to look up, have the same effect. -/
theorem effect_congr_generic {machine : Machine} (sameOpcode : instruction.opcode = other.opcode)
    (generic : instruction.opcode.moveForm? = none)
    (sameWidth : instruction.operationWidth = other.operationWidth)
    (sameValue : instruction.opcode.readsCarrier →
      instruction.carrierValue machine = other.carrierValue machine)
    (samePlace : instruction.opcode = .pop →
      instruction.operand1.location machine instruction.carrierIndex?
        = other.operand1.location machine other.carrierIndex?)
    (sameOperand : instruction.opcode ≠ .push → instruction.opcode ≠ .pop →
      instruction.operand1 = other.operand1) :
    instruction.effect machine = other.effect machine := by
  unfold effect
  rw [← sameOpcode, ← sameWidth]
  cases opcode : instruction.opcode with
  | nop => rfl
  | ret => rfl
  | unary op =>
      rw [sameValue (by rw [opcode]; rfl),
        sameOperand (by rw [opcode]; simp) (by rw [opcode]; simp)]
  | binary op =>
      rw [sameValue (by rw [opcode]; rfl),
        sameOperand (by rw [opcode]; simp) (by rw [opcode]; simp)]
  | push => rw [sameValue (by rw [opcode]; rfl)]
  | pop => rw [samePlace opcode]
  | move form =>
      rw [opcode] at generic
      contradiction

/-- Moves of one form with the same operands and indexes have the same effect. -/
theorem effect_congr_move {form : MoveForm} (opcode : instruction.opcode = .move form)
    (opcode' : other.opcode = .move form)
    (same1 : instruction.operand1 = other.operand1) (same2 : instruction.operand2 = other.operand2)
    (sameIndexes : instruction.moveIndexes form = other.moveIndexes form) (machine : Machine) :
    instruction.effect machine = other.effect machine := by
  have sameValue : instruction.moveValue form machine = other.moveValue form machine := by
    unfold moveValue
    rw [same2, sameIndexes]
  unfold effect
  rw [opcode, opcode']
  simp only [sameValue, same1, sameIndexes]

end

end Instruction

/-- What an instruction does is told by its opcode and its effect. -/
theorem execute_congr {instruction other : Instruction} {machine : Machine}
    (sameOpcode : instruction.opcode = other.opcode)
    (sameEffect : instruction.effect machine = other.effect machine) :
    execute instruction machine = execute other machine := by
  rw [execute_eq, execute_eq, sameOpcode, sameEffect]

end RegisterVM
