import RegisterVM.Proofs.Codec.WellFormed
import RegisterVM.Proofs.Machine.Lookups

/-!
# Arguments that are not the opcode's own

A record put together by hand may have arguments of the other kind than its opcode, or
name widths that a move does not have. It is carried out all the same, by the class of
its opcode: of arguments of the other kind nothing is taken but that there are none, and
the widths they name are never looked at. `Instruction.normalized` is the record with the
arguments that it is carried out with (`execute_normalized`).
-/

namespace RegisterVM.Instruction

/-- The record with arguments of its opcode's own kind. A move keeps its indexes, if its
arguments have any; any other opcode keeps generic arguments, and has no immediate and
works on 32 bits if they are those of a move. -/
def normalized (instruction : Instruction) : Instruction :=
  { instruction with
    arguments :=
      match instruction.opcode.moveForm?, instruction.arguments with
      | some form, .move _ _ index1 index2 =>
          .move form.valueWidth form.indexWidth index1 index2
      | some form, .generic .. => .move form.valueWidth form.indexWidth none none
      | none, .generic wide immediate => .generic wide immediate
      | none, .move .. => .generic false none }

theorem normalized_matched (instruction : Instruction) : instruction.normalized.Matched := by
  obtain ⟨opcode, operand1, operand2, arguments⟩ := instruction
  cases opcode with
  | move form => cases arguments <;> exact ⟨rfl, rfl⟩
  | _ => cases arguments <;> trivial

/-- Arguments of the opcode's own kind stay as they are. -/
theorem Matched.normalized_eq {instruction : Instruction} (matched : instruction.Matched) :
    instruction.normalized = instruction := by
  obtain ⟨opcode, operand1, operand2, arguments⟩ := instruction
  rcases matched.move_or_generic with
    ⟨form, index1, index2, rfl, rfl⟩ | ⟨wide, immediate, generic, rfl⟩
  · rfl
  · simp only [normalized, generic]

/-! ## What the opcode looks up stays -/

/-- A move finds the same indexes, or none. -/
theorem moveIndexes_normalized {instruction : Instruction} {form : MoveForm}
    (opcode : instruction.opcode = .move form) :
    instruction.normalized.moveIndexes form = instruction.moveIndexes form := by
  obtain ⟨_, operand1, operand2, arguments⟩ := instruction
  subst opcode
  cases arguments <;> rfl

/-- Any other opcode finds the same width and the same immediate. -/
theorem lookups_normalized {instruction : Instruction}
    (generic : instruction.opcode.moveForm? = none) :
    instruction.normalized.isWide = instruction.isWide
      ∧ instruction.normalized.immediate? = instruction.immediate? := by
  obtain ⟨opcode, operand1, operand2, arguments⟩ := instruction
  cases opcode with
  | move form => contradiction
  | _ => cases arguments <;> exact ⟨rfl, rfl⟩

theorem effect_normalized (instruction : Instruction) (machine : Machine) :
    instruction.normalized.effect machine = instruction.effect machine := by
  cases found : instruction.opcode.moveForm? with
  | some form =>
      have opcode := Opcode.moveForm?_eq_some_iff.mp found
      have kept : instruction.normalized.opcode = .move form := opcode
      exact effect_congr_move kept opcode rfl rfl (moveIndexes_normalized opcode) machine
  | none =>
      obtain ⟨sameWide, sameImmediate⟩ := lookups_normalized found
      have sameWidth : instruction.normalized.operationWidth = instruction.operationWidth := by
        rw [operationWidth, sameWide, operationWidth]
      have sameIndex : instruction.normalized.carrierIndex? = instruction.carrierIndex? := by
        rw [carrierIndex?, sameImmediate, carrierIndex?]
      have sameValue : instruction.normalized.carrierValue machine
          = instruction.carrierValue machine := by
        unfold carrierValue
        rw [sameWidth, sameIndex, sameImmediate]
        rfl
      refine effect_congr_generic rfl found sameWidth (fun _ => sameValue) (fun _ => ?_)
        (fun _ _ => rfl)
      rw [sameIndex]
      rfl

end RegisterVM.Instruction

namespace RegisterVM

/-- **Ill-matched records.** Any record is carried out as the one that its opcode's class makes of
it, whose arguments are of the opcode's own kind: a move with the widths of its opcode and the
indexes that it has, if its arguments are those of a move, or with none; any other opcode with its
generic arguments, or as a 32-bit operation without an immediate. On every machine the two have one
outcome or one fault, and leave the same machine. A record is changed by this only if its arguments
are not of the opcode's own kind. -/
theorem execute_normalized (instruction : Instruction) :
    instruction.normalized.Matched
      ∧ (instruction.normalized = instruction ↔ instruction.Matched)
      ∧ ∀ machine, execute instruction.normalized machine = execute instruction machine := by
  refine ⟨instruction.normalized_matched, ⟨?_, fun matched => matched.normalized_eq⟩, ?_⟩
  · intro same
    rw [← same]
    exact instruction.normalized_matched
  · intro machine
    exact execute_congr rfl (instruction.effect_normalized machine)

end RegisterVM
