import RegisterVM.Proofs.Machine.Lookups
import RegisterVM.Proofs.Text.Unambiguous

/-!
# A line of a listing says what the instruction does

The text leaves things out: the operands of `NOP` and `RET`, the second operand
of `PUSH` and `POP`, and where an index has the border between its two fields.
Nothing of this has a say in the execution. What an instruction computes depends
on its carrier only through what the carrier shows (`carrierValue_eq_shown`,
`location_shownIndex`), so that instructions with one text have one effect.
-/

namespace RegisterVM.Instruction

/-- The value of the carrier depends on what it shows. -/
theorem carrierValue_eq_shown (instruction : Instruction) (machine : Machine) :
    instruction.carrierValue machine =
      if instruction.carrier.indirect then
        (instruction.carrier.location machine instruction.shownIndex?).read machine
          instruction.operationWidth
      else
        .ok (instruction.operationWidth.truncate
          (machine.register instruction.carrier.register
            + (instruction.shownValue?.map UInt32.toUInt64).getD 0)) := by
  by_cases indirect : instruction.carrier.indirect
  · simp only [carrierValue, shownIndex?, if_pos indirect]
  · simp only [carrierValue, shownValue?, if_neg indirect]

/-- A direct carrier has no use for an index, which it does not show. -/
theorem location_shownIndex (instruction : Instruction) (machine : Machine) :
    instruction.carrier.location machine instruction.carrierIndex?
      = instruction.carrier.location machine instruction.shownIndex? := by
  by_cases indirect : instruction.carrier.indirect
  · simp only [Operand.location, shownIndex?, if_pos indirect]
  · simp only [Operand.location, if_neg indirect]

section

variable {instruction other : Instruction}

theorem carrierValue_congr (sameWidth : instruction.operationWidth = other.operationWidth)
    (shown : instruction.carrierText = other.carrierText) (machine : Machine) :
    instruction.carrierValue machine = other.carrierValue machine := by
  obtain ⟨sameCarrier, sameIndex, sameValue⟩ := carrierText_injective shown
  rw [carrierValue_eq_shown, carrierValue_eq_shown, sameCarrier, sameIndex, sameValue, sameWidth]

theorem carrierLocation_congr (shown : instruction.carrierText = other.carrierText)
    (machine : Machine) :
    instruction.carrier.location machine instruction.carrierIndex?
      = other.carrier.location machine other.carrierIndex? := by
  obtain ⟨sameCarrier, sameIndex, -⟩ := carrierText_injective shown
  rw [location_shownIndex, location_shownIndex, sameCarrier, sameIndex]

/-- Generic instructions of one opcode and one width that show the same operands
have the same effect. -/
theorem effect_congr_shown (sameOpcode : instruction.opcode = other.opcode)
    (generic : instruction.opcode.moveForm? = none)
    (sameWidth : instruction.operationWidth = other.operationWidth)
    (shown : instruction.genericOperands = other.genericOperands) (machine : Machine) :
    instruction.effect machine = other.effect machine := by
  obtain ⟨shownCarrier, sameOperand⟩ := genericOperands_injective sameOpcode shown
  refine effect_congr_generic sameOpcode generic sameWidth
    (fun _ => carrierValue_congr sameWidth shownCarrier machine) (fun opcode => ?_) sameOperand
  have samePlace := carrierLocation_congr shownCarrier machine
  simp only [carrier, opcode, ← sameOpcode] at samePlace
  exact samePlace

theorem effect_of_nop_or_ret (silent : instruction.opcode = .nop ∨ instruction.opcode = .ret)
    (machine : Machine) : instruction.effect machine = .ok [] := by
  unfold effect
  rcases silent with opcode | opcode <;> rw [opcode]

/-- Any other generic instruction shows its width and its operands. -/
theorem detail_of_generic {wide : Bool} {immediate : Option UInt32}
    (given : instruction.arguments = .generic wide immediate)
    (speaks : ¬(instruction.opcode = .nop ∨ instruction.opcode = .ret)) :
    instruction.operationWidth = Width.natural wide
      ∧ instruction.detail = (Width.natural wide).text ++ ' ' :: instruction.genericOperands := by
  refine ⟨by rw [operationWidth, isWide, given], ?_⟩
  unfold detail
  rw [given]
  cases opcode : instruction.opcode with
  | nop => exact absurd (.inl opcode) speaks
  | ret => exact absurd (.inr opcode) speaks
  | _ => rfl

/-- Equal texts name one opcode, and show all of the operands that it works
on. -/
theorem effect_eq_of_text_eq (formed : instruction.WellFormed) (formed' : other.WellFormed)
    (same : instruction.text = other.text) (machine : Machine) :
    instruction.effect machine = other.effect machine := by
  obtain ⟨sameOpcode, sameDetail⟩ := opcode_eq_of_text_eq same
  rcases formed.move_or_generic with
    ⟨form, index1, index2, opcode, given, -, -⟩ | ⟨wide, immediate, generic, given, -⟩
  · rcases formed'.move_or_generic with
      ⟨form', index1', index2', opcode', given', -, -⟩ | ⟨_, _, generic', -⟩
    · obtain rfl : form = form' := by
        rw [opcode, opcode'] at sameOpcode
        injection sameOpcode
      simp only [detail, given, given', List.cons_append, List.cons.injEq, true_and] at sameDetail
      obtain ⟨⟨same1, sameIndex1⟩, same2, sameIndex2⟩ := moveDetail_injective sameDetail
      refine effect_congr_move opcode opcode' same1 same2 ?_ machine
      simp only [moveIndexes, given, given', sameIndex1, sameIndex2]
    · rw [← sameOpcode, opcode] at generic'
      contradiction
  · rcases formed'.move_or_generic with
      ⟨form', _, _, opcode', -⟩ | ⟨wide', immediate', -, given', -⟩
    · rw [sameOpcode, opcode'] at generic
      contradiction
    · by_cases silent : instruction.opcode = .nop ∨ instruction.opcode = .ret
      · rw [effect_of_nop_or_ret silent, effect_of_nop_or_ret (sameOpcode ▸ silent)]
      · obtain ⟨width, shows⟩ := detail_of_generic given silent
        obtain ⟨width', shows'⟩ := detail_of_generic given' (sameOpcode ▸ silent)
        rw [shows, shows'] at sameDetail
        obtain ⟨rfl, sameOperands⟩ := genericDetail_injective sameDetail
        exact effect_congr_shown sameOpcode generic (width.trans width'.symm) sameOperands
          machine

end

end RegisterVM.Instruction

namespace RegisterVM

/-- **Listings tell what is executed.** Two well-formed instructions with one text
do the same on every machine: they have one outcome and leave one machine, or
they fail with one fault. -/
theorem execute_eq_of_text_eq (instruction other : Instruction)
    (formed : instruction.WellFormed) (formed' : other.WellFormed)
    (same : instruction.text = other.text) (machine : Machine) :
    execute instruction machine = execute other machine := by
  have sameOpcode := (Instruction.opcode_eq_of_text_eq same).1
  have sameEffect := Instruction.effect_eq_of_text_eq formed formed' same machine
  rw [execute_eq, execute_eq, sameOpcode, sameEffect]

/-- `ADD64 R1, @R2(+0,+1)`, with the border of its index below the lowest bit and
above the second one. -/
theorem execute_eq_of_text_eq_borders :
    let addition (immediate : UInt32) : Instruction :=
      ⟨.binary .add, ⟨.r1, false⟩, ⟨.r2, true⟩, .generic true (some immediate)⟩
    let image : Memory := ⟨#[0, 0, 0, 0, 0, 0, 0, 0, 42, 0, 0, 0, 0, 0, 0, 0], by decide⟩
    let machine := (Machine.ofMemory image).setRegister .r2 7
    (addition 0x0001).WellFormed ∧ (addition 0x1004).WellFormed
      ∧ (addition 0x0001).text = "ADD64 R1, @R2(+0,+1)".toList
      ∧ (addition 0x1004).text = (addition 0x0001).text
      ∧ execute (addition 0x0001) machine = .ok .continue (machine.setRegister .r1 42)
      ∧ execute (addition 0x1004) machine = .ok .continue (machine.setRegister .r1 42) := by
  intro addition image machine
  have formed : (addition 0x0001).WellFormed := by decide
  have formed' : (addition 0x1004).WellFormed := by decide
  have text : (addition 0x0001).text = "ADD64 R1, @R2(+0,+1)".toList := by decide
  have same : (addition 0x1004).text = (addition 0x0001).text := by decide
  have executed : execute (addition 0x0001) machine
      = .ok .continue (machine.setRegister .r1 42) := by
    subst machine image addition
    rfl
  exact ⟨formed, formed', text, same, executed,
    (execute_eq_of_text_eq _ _ formed' formed same machine).trans executed⟩

end RegisterVM
