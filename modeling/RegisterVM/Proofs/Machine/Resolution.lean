import RegisterVM.Machine.Execute

/-!
# How instructions are resolved

`Resolves` tells, opcode by opcode, what an instruction reads and checks on the
machine as it is, and the writes that it then comes to. An instruction is carried
out exactly if it resolves (`execute_eq_ok_iff`), so that what all instructions do
is shown by going through its cases, without their order of accesses.
-/

namespace RegisterVM

theorem bind_eq_ok {ε α β : Type} {first : Except ε α} {next : α → Except ε β} {result : β} :
    (first >>= next) = .ok result ↔ ∃ value, first = .ok value ∧ next value = .ok result := by
  cases first with
  | error fault => simp [bind, Except.bind]
  | ok value => simp [bind, Except.bind]

namespace Instruction

/-- The instruction can be carried out on the machine, and comes to these
writes. -/
inductive Resolves (instruction : Instruction) (machine : Machine) : List Write → Prop
  | nop (opcode : instruction.opcode = .nop) : Resolves instruction machine []
  | ret (opcode : instruction.opcode = .ret) : Resolves instruction machine []
  | unary {op : UnaryOp} {source : UInt64} (opcode : instruction.opcode = .unary op)
      (read : instruction.carrierValue machine = .ok source)
      (fits : (instruction.operand1.location machine none).check machine
        instruction.operationWidth = .ok ()) :
      Resolves instruction machine
        [⟨instruction.operand1.location machine none, instruction.operationWidth,
          op.eval instruction.operationWidth source⟩]
  | binary {op : BinaryOp} {left right result : UInt64} (opcode : instruction.opcode = .binary op)
      (readLeft : (instruction.operand1.location machine none).read machine
        instruction.operationWidth = .ok left)
      (readRight : instruction.carrierValue machine = .ok right)
      (computed : op.eval instruction.operationWidth left right = .ok result) :
      Resolves instruction machine
        [⟨instruction.operand1.location machine none, instruction.operationWidth, result⟩]
  | push {value : UInt64} (opcode : instruction.opcode = .push)
      (read : instruction.carrierValue machine = .ok value)
      (fits : (Location.memory (machine.register .r0
        - UInt64.ofNat instruction.operationWidth.bytes)).check machine
          instruction.operationWidth = .ok ()) :
      Resolves instruction machine
        [⟨.memory (machine.register .r0 - UInt64.ofNat instruction.operationWidth.bytes),
            instruction.operationWidth, value⟩,
          ⟨.register .r0, .quad,
            machine.register .r0 - UInt64.ofNat instruction.operationWidth.bytes⟩]
  | pop {value : UInt64} (opcode : instruction.opcode = .pop)
      (read : (Location.memory (machine.register .r0)).read machine
        instruction.operationWidth = .ok value)
      (fits : (instruction.operand1.location machine instruction.carrierIndex?).check machine
        instruction.operationWidth = .ok ()) :
      Resolves instruction machine
        [⟨instruction.operand1.location machine instruction.carrierIndex?,
            instruction.operationWidth, value⟩,
          ⟨.register .r0, .quad,
            machine.register .r0 + UInt64.ofNat instruction.operationWidth.bytes⟩]
  | move {form : MoveForm} {value : UInt64} (opcode : instruction.opcode = .move form)
      (read : instruction.moveValue form machine = .ok value)
      (fits : (instruction.operand1.location machine (instruction.moveIndexes form).1).check
        machine form.valueWidth = .ok ()) :
      Resolves instruction machine
        [⟨instruction.operand1.location machine (instruction.moveIndexes form).1,
          form.valueWidth, value⟩]

theorem effect_eq_ok_iff {instruction : Instruction} {machine : Machine} {writes : List Write} :
    instruction.effect machine = .ok writes ↔ instruction.Resolves machine writes := by
  constructor
  · intro resolved
    unfold effect at resolved
    cases opcode : instruction.opcode with
    | nop =>
        rw [opcode] at resolved
        injection resolved with same
        exact same ▸ .nop opcode
    | ret =>
        rw [opcode] at resolved
        injection resolved with same
        exact same ▸ .ret opcode
    | unary op =>
        simp only [opcode, bind_eq_ok] at resolved
        obtain ⟨source, read, _, fits, same⟩ := resolved
        injection same with same
        exact same ▸ .unary opcode read fits
    | binary op =>
        simp only [opcode, bind_eq_ok] at resolved
        obtain ⟨left, readLeft, right, readRight, result, computed, same⟩ := resolved
        injection same with same
        exact same ▸ .binary opcode readLeft readRight computed
    | push =>
        simp only [opcode, bind_eq_ok] at resolved
        obtain ⟨value, read, _, fits, same⟩ := resolved
        injection same with same
        exact same ▸ .push opcode read fits
    | pop =>
        simp only [opcode, bind_eq_ok] at resolved
        obtain ⟨value, read, _, fits, same⟩ := resolved
        injection same with same
        exact same ▸ .pop opcode read fits
    | move form =>
        simp only [opcode, bind_eq_ok] at resolved
        obtain ⟨value, read, _, fits, same⟩ := resolved
        injection same with same
        exact same ▸ .move opcode read fits
  · intro resolves
    unfold effect
    cases resolves with
    | nop opcode => rw [opcode]
    | ret opcode => rw [opcode]
    | unary opcode read fits => simp only [opcode, read, fits]; rfl
    | binary opcode readLeft readRight computed =>
        simp only [opcode, readLeft, readRight, computed, bind, Except.bind]
        rfl
    | push opcode read fits => simp only [opcode, read, fits]; rfl
    | pop opcode read fits => simp only [opcode, read, fits]; rfl
    | move opcode read fits => simp only [opcode, read, fits]; rfl

end Instruction

theorem execute_eq_ok_iff {instruction : Instruction} {machine after : Machine}
    {outcome : Outcome} :
    execute instruction machine = .ok outcome after ↔
      outcome = instruction.opcode.outcome
        ∧ ∃ writes, instruction.Resolves machine writes
          ∧ after = writes.foldl Machine.apply machine := by
  simp only [← Instruction.effect_eq_ok_iff]
  rw [execute_eq]
  cases instruction.effect machine with
  | error fault => simp
  | ok writes =>
      constructor
      · intro done
        injection done with sameOutcome sameMachine
        exact ⟨sameOutcome.symm, writes, rfl, sameMachine.symm⟩
      · rintro ⟨rfl, _, same, rfl⟩
        injection same with same
        rw [same]

theorem execute_eq_error_iff {instruction : Instruction} {machine after : Machine}
    {fault : ExecutionFault} :
    execute instruction machine = .error fault after ↔
      instruction.effect machine = .error fault ∧ after = machine := by
  rw [execute_eq]
  cases instruction.effect machine with
  | error cause =>
      constructor
      · intro failed
        injection failed with sameFault sameMachine
        exact ⟨congrArg Except.error sameFault, sameMachine.symm⟩
      · rintro ⟨same, rfl⟩
        injection same with same
        rw [same]
  | ok writes => simp

end RegisterVM
