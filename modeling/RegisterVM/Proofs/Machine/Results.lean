import RegisterVM.Proofs.Machine.Arithmetic
import RegisterVM.Proofs.Machine.Contents

/-!
# What an instruction leaves

An arithmetic instruction or a move that succeeds writes once, to operand 1. What stands
there afterwards is said by the machine before it alone (`arithmetic_leaves_result`,
`move_leaves_source`), so that it makes no difference whether the operands share a
register or their ranges overlap.
-/

namespace RegisterVM

/-! ## Results have room -/

theorem Width.toNat_truncate_lt (width : Width) (word : UInt64) :
    (width.truncate word).toNat < 2 ^ width.bits := by
  rw [toNat_truncate]
  exact Nat.mod_lt _ (Nat.two_pow_pos _)

theorem UnaryOp.toNat_eval_lt (op : UnaryOp) (width : Width) (word : UInt64) :
    (op.eval width word).toNat < 2 ^ width.bits :=
  width.toNat_truncate_lt _

theorem BinaryOp.toNat_lt_of_eval {op : BinaryOp} {width : Width} {left right result : UInt64}
    (computed : op.eval width left right = .ok result) : result.toNat < 2 ^ width.bits := by
  cases op with
  | div | divu | mod | modu =>
      simp only [eval] at computed
      split at computed
      next => contradiction
      next =>
        injection computed with same
        exact same ▸ width.toNat_truncate_lt _
  | _ =>
      injection computed with same
      exact same ▸ width.toNat_truncate_lt _

/-! ## One write -/

/-- A result that the width has room for is at the operand as it is. -/
theorem Operand.holds_result {operand : Operand} {machine : Machine} {index : Option NaturalIndex}
    {width : Width} {result : UInt64} (room : result.toNat < 2 ^ width.bits)
    (fits : (operand.location machine index).check machine width = .ok ()) :
    operand.Holds (operand.address machine index) width result.toNat
      (machine.apply ⟨operand.location machine index, width, result⟩) := by
  have held := operand.holds_apply result fits
  rwa [Nat.mod_eq_of_lt room] at held

section

variable {instruction : Instruction} {machine after : Machine} {outcome : Outcome}

/-- A unary operation that succeeds leaves its result at operand 1. -/
theorem execute_unary_holds {op : UnaryOp} (opcode : instruction.opcode = .unary op)
    (done : execute instruction machine = .ok outcome after) :
    ∃ source, instruction.carrierValue machine = .ok source
      ∧ instruction.operand1.Holds (instruction.operand1.address machine none)
        instruction.operationWidth (op.eval instruction.operationWidth source).toNat after := by
  obtain ⟨-, writes, resolves, rfl⟩ := execute_eq_ok_iff.mp done
  cases resolves with
  | unary opcode' read fits =>
      obtain rfl := Opcode.unary.inj (opcode.symm.trans opcode')
      exact ⟨_, read, Operand.holds_result (op.toNat_eval_lt _ _) fits⟩
  | nop other | ret other | binary other | push other | pop other | move other =>
      rw [opcode] at other
      contradiction

/-- A binary operation that succeeds leaves its result at operand 1. -/
theorem execute_binary_holds {op : BinaryOp} (opcode : instruction.opcode = .binary op)
    (done : execute instruction machine = .ok outcome after) :
    ∃ left right result,
      (instruction.operand1.location machine none).read machine instruction.operationWidth
          = .ok left
        ∧ instruction.carrierValue machine = .ok right
        ∧ op.eval instruction.operationWidth left right = .ok result
        ∧ instruction.operand1.Holds (instruction.operand1.address machine none)
          instruction.operationWidth result.toNat after := by
  obtain ⟨-, writes, resolves, rfl⟩ := execute_eq_ok_iff.mp done
  cases resolves with
  | binary opcode' readLeft readRight computed =>
      obtain rfl := Opcode.binary.inj (opcode.symm.trans opcode')
      exact ⟨_, _, _, readLeft, readRight, computed,
        Operand.holds_result (BinaryOp.toNat_lt_of_eval computed) (Location.check_of_read readLeft)⟩
  | nop other | ret other | unary other | push other | pop other | move other =>
      rw [opcode] at other
      contradiction

/-- A move that succeeds leaves its value at operand 1. -/
theorem execute_move_holds {form : MoveForm} (opcode : instruction.opcode = .move form)
    (done : execute instruction machine = .ok outcome after) :
    ∃ value, instruction.moveValue form machine = .ok value
      ∧ instruction.operand1.Holds
        (instruction.operand1.address machine (instruction.moveIndexes form).1) form.valueWidth
        (value.toNat % 2 ^ form.valueWidth.bits) after := by
  obtain ⟨-, writes, resolves, rfl⟩ := execute_eq_ok_iff.mp done
  cases resolves with
  | move opcode' read fits =>
      obtain rfl := Opcode.move.inj (opcode.symm.trans opcode')
      exact ⟨_, read, Operand.holds_apply _ fits⟩
  | nop other | ret other | unary other | binary other | push other | pop other =>
      rw [opcode] at other
      contradiction

end

/-- **The result of an arithmetic instruction.** Let `left` be the number at operand 1 before the
instruction, and `source` the sum of operand 2's register and the immediate, reduced to the width,
or the number at operand 2's displaced address if that operand is indirect; the width has room for
both. If the instruction succeeds, what the operation makes of them is at operand 1 afterwards: in
its whole register, zero above the width, or in the bytes at the address that the register held
before. -/
theorem arithmetic_leaves_result (instruction : Instruction) (machine after : Machine)
    (outcome : Outcome) (wide : Bool) (immediate : Option UInt32)
    (generic : instruction.arguments = .generic wide immediate)
    (done : execute instruction machine = .ok outcome after) :
    let width := Width.natural wide
    let target := instruction.operand1
    let left := target.number machine none width
    let source := instruction.operand2.source machine immediate width
    left < 2 ^ width.bits ∧ source < 2 ^ width.bits
    ∧ (∀ op, instruction.opcode = .unary op →
      let result := op.eval width (.ofNat source)
      result.toNat < 2 ^ width.bits
        ∧ target.Holds (target.address machine none) width result.toNat after)
    ∧ (∀ op, instruction.opcode = .binary op →
      ∃ result, op.eval width (.ofNat left) (.ofNat source) = .ok result
        ∧ result.toNat < 2 ^ width.bits
        ∧ target.Holds (target.address machine none) width result.toNat after) := by
  intro width target left source
  have sameWidth : instruction.operationWidth = width := by
    rw [Instruction.operationWidth, Instruction.isWide, generic]
  have sameImmediate : instruction.immediate? = immediate := by
    rw [Instruction.immediate?, generic]
  -- The word that was read is the one that the number makes.
  have sourceWord {word : UInt64} (carrier : instruction.carrier = instruction.operand2)
      (read : instruction.carrierValue machine = .ok word) : .ofNat source = word := by
    have number := Instruction.toNat_source read
    rw [carrier, sameWidth, sameImmediate] at number
    rw [← UInt64.ofNat_toNat (x := word), number]
  refine ⟨target.number_lt machine none width,
    instruction.operand2.source_lt machine immediate width, ?_, ?_⟩
  · intro op opcode
    obtain ⟨word, read, held⟩ := execute_unary_holds opcode done
    have carrier : instruction.carrier = instruction.operand2 := by
      rw [Instruction.carrier, opcode]
    rw [sameWidth] at held
    rw [sourceWord carrier read]
    exact ⟨op.toNat_eval_lt _ _, held⟩
  · intro op opcode
    obtain ⟨leftWord, rightWord, result, readLeft, readRight, computed, held⟩ :=
      execute_binary_holds opcode done
    have carrier : instruction.carrier = instruction.operand2 := by
      rw [Instruction.carrier, opcode]
    rw [sameWidth] at readLeft computed held
    have leftNumber : .ofNat left = leftWord := by
      rw [← UInt64.ofNat_toNat (x := leftWord), Operand.toNat_read readLeft]
    rw [sourceWord carrier readRight, leftNumber]
    exact ⟨result, computed, BinaryOp.toNat_lt_of_eval computed, held⟩

/-- A sum whose source overlaps its destination in all but one byte, both at the address in one
register, and a negation of a register whose upper half is cleared. -/
theorem arithmetic_leaves_result_overlapping :
    let image : Memory := ⟨#[9, 1, 2, 3, 4, 5, 6, 7], by decide⟩
    let machine := ((Machine.ofMemory image).setRegister .r1 1).setRegister .r2 0xffffffff00000002
    let summed : Memory := ⟨#[9, 3, 5, 7, 9, 5, 6, 7], by decide⟩
    let add : Instruction := ⟨.binary .add, ⟨.r1, true⟩, ⟨.r1, true⟩, .generic false (some 1)⟩
    let negate : Instruction := ⟨.unary .neg, ⟨.r2, false⟩, ⟨.r2, false⟩, .generic false (some 1)⟩
    let added := { machine with memory := summed }
    let negated := machine.setRegister .r2 0xfffffffd
    execute add machine = .ok .continue added
      ∧ (∃ result, BinaryOp.add.eval .double 0x04030201 0x05040302 = .ok result
        ∧ summed.Holds 1 (LittleEndian.encode 4 result.toNat))
      ∧ execute negate machine = .ok .continue negated
      ∧ (negated.register .r2).toNat = (UnaryOp.neg.eval .double 3).toNat := by
  intro image machine summed add negate added negated
  have sum : execute add machine = .ok .continue added := by
    subst negated added negate add summed machine image
    rfl
  have negation : execute negate machine = .ok .continue negated := by
    subst negated added negate add summed machine image
    rfl
  obtain ⟨-, -, -, binary⟩ := arithmetic_leaves_result add machine added _ false (some 1) rfl sum
  obtain ⟨-, -, unary, -⟩ :=
    arithmetic_leaves_result negate machine negated _ false (some 1) rfl negation
  have left : add.operand1.number machine none (Width.natural false) = 0x04030201 := by
    decide +kernel
  have source : add.operand2.source machine (some 1) (Width.natural false) = 0x05040302 := by
    decide +kernel
  have place : add.operand1.address machine none = 1 := by decide +kernel
  have negatedSource : negate.operand2.source machine (some 1) (Width.natural false) = 3 := by
    decide +kernel
  obtain ⟨result, computed, -, held⟩ := binary .add rfl
  obtain ⟨-, heldToo⟩ := unary .neg rfl
  rw [left, source] at computed
  rw [place] at held
  rw [negatedSource] at heldToo
  exact ⟨sum, ⟨result, computed, held⟩, negation, heldToo⟩

/-- What a move copies is the number at its source: the displaced sum cut to the width if that is
direct, else what the bytes at the displaced address spell. -/
theorem Instruction.toNat_moveValue {instruction : Instruction} {form : MoveForm}
    {machine : Machine} {value : UInt64} (read : instruction.moveValue form machine = .ok value) :
    value.toNat =
      if instruction.operand2.indirect then
        instruction.operand2.number machine (instruction.moveIndexes form).2 form.valueWidth
      else
        instruction.operand2.address machine (instruction.moveIndexes form).2
          % 2 ^ form.valueWidth.bits := by
  by_cases indirect : instruction.operand2.indirect
  · rw [moveValue, if_pos indirect] at read
    rw [if_pos indirect]
    exact Operand.toNat_read read
  · rw [moveValue, if_neg indirect] at read
    injection read with same
    rw [if_neg indirect, ← same, Width.toNat_truncate, Operand.toNat_address]

/-- **The copy that a move leaves.** Let `source` be what operand 2's bytes spell at its register
displaced by its index, or that displaced register itself, cut to the width of the move, if the
operand is direct. If the move succeeds, operand 1 holds just this number afterwards: in its whole
register, whatever index it has, or in the bytes at its register displaced by its own index.
Registers and memory are those before the move, and the widths are those of the opcode, whatever
widths the arguments name. -/
theorem move_leaves_source (instruction : Instruction) (form : MoveForm) (machine after : Machine)
    (outcome : Outcome) (valueWidth indexWidth : Width) (index1 index2 : Option UInt64)
    (opcode : instruction.opcode = .move form)
    (arguments : instruction.arguments = .move valueWidth indexWidth index1 index2)
    (done : execute instruction machine = .ok outcome after) :
    let width := form.valueWidth
    let target := instruction.operand1
    let origin := instruction.operand2
    let leads1 := index1.map (NaturalIndex.decode form.indexWidth)
    let leads2 := index2.map (NaturalIndex.decode form.indexWidth)
    let source :=
      if origin.indirect then origin.number machine leads2 width
      else origin.address machine leads2 % 2 ^ width.bits
    source < 2 ^ width.bits
      ∧ target.Holds (target.address machine leads1) width source after := by
  intro width target origin leads1 leads2 source
  have indexes : instruction.moveIndexes form = (leads1, leads2) := by
    rw [Instruction.moveIndexes, arguments]
  obtain ⟨value, read, held⟩ := execute_move_holds opcode done
  have number : value.toNat = source := by
    have copied := Instruction.toNat_moveValue read
    rwa [indexes] at copied
  have room : source < 2 ^ width.bits := by
    show (if origin.indirect then _ else _) < _
    split
    next => exact origin.number_lt machine leads2 width
    next => exact Nat.mod_lt _ (Nat.two_pow_pos _)
  rw [indexes, number, Nat.mod_eq_of_lt room] at held
  exact ⟨room, held⟩

/-- A move between overlapping bytes around the address in one register, by one index each way, and
one from a displaced register that wraps. -/
theorem move_leaves_source_overlapping :
    let image : Memory := ⟨#[9, 1, 2, 3, 4, 5, 6, 7], by decide⟩
    let machine := ((Machine.ofMemory image).setRegister .r1 2).setRegister .r3 0xffffffffffffffff
    let moved : Memory := ⟨#[9, 3, 4, 5, 6, 5, 6, 7], by decide⟩
    let between : Instruction :=
      ⟨.move .dw, ⟨.r1, true⟩, ⟨.r1, true⟩, .move .double .word (some 0x8001) (some 1)⟩
    let direct : Instruction :=
      ⟨.move .ww, ⟨.r3, false⟩, ⟨.r3, false⟩, .move .word .word (some 0x8001) (some 3)⟩
    let copied := { machine with memory := moved }
    let summed := machine.setRegister .r3 2
    between.WellFormed ∧ direct.WellFormed
      ∧ execute between machine = .ok .continue copied
      ∧ moved.Holds 1 (LittleEndian.encode 4 0x06050403)
      ∧ execute direct machine = .ok .continue summed
      ∧ (summed.register .r3).toNat = 2 := by
  intro image machine moved between direct copied summed
  have copy : execute between machine = .ok .continue copied := by
    subst summed copied direct between moved machine image
    rfl
  have sum : execute direct machine = .ok .continue summed := by
    subst summed copied direct between moved machine image
    rfl
  obtain ⟨-, held⟩ := move_leaves_source between .dw machine copied _ .double .word (some 0x8001)
    (some 1) rfl rfl copy
  obtain ⟨-, heldToo⟩ := move_leaves_source direct .ww machine summed _ .word .word (some 0x8001)
    (some 3) rfl rfl sum
  have origin : between.operand2.number machine
      (some (NaturalIndex.decode MoveForm.dw.indexWidth 1)) MoveForm.dw.valueWidth
        = 0x06050403 := by decide +kernel
  have place : between.operand1.address machine
      (some (NaturalIndex.decode MoveForm.dw.indexWidth 0x8001)) = 1 := by decide +kernel
  have displaced : direct.operand2.address machine
      (some (NaturalIndex.decode MoveForm.ww.indexWidth 3)) = 2 := by decide +kernel
  simp only [Option.map_some] at held heldToo
  rw [place, if_pos rfl, origin] at held
  rw [if_neg Bool.false_ne_true, displaced] at heldToo
  exact ⟨by decide, by decide, copy, held, sum, heldToo⟩

end RegisterVM
