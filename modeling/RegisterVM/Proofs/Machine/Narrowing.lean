import RegisterVM.Proofs.Codec.Narrowing
import RegisterVM.Proofs.Machine.Lookups

/-!
# What encoding leaves out is hardly ever looked at

A record whose numbers do not fit their room is read back with smaller ones
(`decode_encode_append_of_matched`). It has the same effect all the same, since an index,
and an immediate that displaces, are cut to the same room when they are looked up
(`NaturalIndex.decode_congr`). Only an immediate that is added to a register is added
with all of its 32 bits, so that its upper half must be zero for that
(`Instruction.effect_narrowed`).
-/

namespace RegisterVM

namespace Instruction

/-- The instruction adds an immediate of more than 16 bits to the register that it reads
its source from. -/
structure AddsWideImmediate (instruction : Instruction) : Prop where
  reads : instruction.opcode.readsCarrier
  direct : instruction.carrier.indirect = false
  wide : ∃ value ∈ instruction.immediate?, 0xffff < value.toNat

/-! ## What is looked up stays -/

theorem immediate?_narrowed (instruction : Instruction) :
    instruction.narrowed.immediate?
      = instruction.immediate?.map fun value => .ofNat (value.toNat % 2 ^ 16) := by
  obtain ⟨opcode, operand1, operand2, arguments⟩ := instruction
  cases arguments <;> rfl

theorem operationWidth_narrowed (instruction : Instruction) :
    instruction.narrowed.operationWidth = instruction.operationWidth := by
  obtain ⟨opcode, operand1, operand2, arguments⟩ := instruction
  cases arguments <;> rfl

/-- The displacement is looked up in as many bits as are encoded. -/
theorem carrierIndex?_narrowed (instruction : Instruction) :
    instruction.narrowed.carrierIndex? = instruction.carrierIndex? := by
  have low (value : UInt32) :
      NaturalIndex.decode .word (UInt32.ofNat (value.toNat % 2 ^ 16)).toUInt64
        = NaturalIndex.decode .word value.toUInt64 := by
    refine NaturalIndex.decode_congr (Width.truncate_eq_iff.mpr ?_)
    rw [UInt32.toNat_toUInt64, UInt32.toNat_toUInt64, toNat_ofNat_mod_word]
    exact Nat.mod_mod _ _
  rw [carrierIndex?, immediate?_narrowed, Option.map_map, carrierIndex?]
  exact congrArg (instruction.immediate?.map ·) (funext low)

/-- A move looks its indexes up in as many bits as are encoded. -/
theorem moveIndexes_narrowed {instruction : Instruction} (matched : instruction.Matched)
    {form : MoveForm} (opcode : instruction.opcode = .move form) :
    instruction.narrowed.moveIndexes form = instruction.moveIndexes form := by
  have low (index : Option UInt64) :
      (index.map fun index => UInt64.ofNat (index.toNat % 2 ^ form.indexWidth.bits)).map
          (NaturalIndex.decode form.indexWidth)
        = index.map (NaturalIndex.decode form.indexWidth) := by
    rw [Option.map_map]
    refine congrArg (index.map ·) (funext fun index => ?_)
    refine NaturalIndex.decode_congr (Width.truncate_eq_iff.mpr ?_)
    rw [Width.toNat_ofNat_mod]
    exact Nat.mod_mod _ _
  obtain ⟨_, operand1, operand2, arguments⟩ := instruction
  subst opcode
  rcases matched.move_or_generic with ⟨_, index1, index2, same, rfl⟩ | ⟨_, _, generic, -⟩
  · obtain rfl := Opcode.move.inj same
    exact congrArg₂ Prod.mk (low index1) (low index2)
  · contradiction

/-! ## The source -/

/-- A displaced source is read where it was. -/
theorem carrierValue_narrowed_of_indirect {instruction : Instruction}
    (indirect : instruction.carrier.indirect) (machine : Machine) :
    instruction.narrowed.carrierValue machine = instruction.carrierValue machine := by
  have same : instruction.narrowed.carrier = instruction.carrier := rfl
  rw [carrierValue, carrierValue, same, if_pos indirect, if_pos indirect,
    operationWidth_narrowed, carrierIndex?_narrowed]

/-- The source is the same, unless a wide immediate is added to it. -/
theorem carrierValue_narrowed {instruction : Instruction}
    (reads : instruction.opcode.readsCarrier) (narrow : ¬ instruction.AddsWideImmediate)
    (machine : Machine) :
    instruction.narrowed.carrierValue machine = instruction.carrierValue machine := by
  cases direct : instruction.carrier.indirect with
  | true => exact carrierValue_narrowed_of_indirect direct machine
  | false =>
      have same : instruction.narrowed.carrier = instruction.carrier := rfl
      have kept : instruction.narrowed.immediate? = instruction.immediate? := by
        rw [immediate?_narrowed]
        cases given : instruction.immediate? with
        | none => rfl
        | some value =>
            have small : value.toNat ≤ 0xffff := Nat.le_of_not_lt fun wide =>
              narrow ⟨reads, direct, value, given, wide⟩
            refine congrArg some (UInt32.toNat.inj ?_)
            rw [toNat_ofNat_mod_word]
            omega
      rw [carrierValue_of_direct direct, carrierValue_of_direct (same ▸ direct), same,
        operationWidth_narrowed, kept]

theorem effect_narrowed {instruction : Instruction} (matched : instruction.Matched)
    (narrow : ¬ instruction.AddsWideImmediate) (machine : Machine) :
    instruction.narrowed.effect machine = instruction.effect machine := by
  cases found : instruction.opcode.moveForm? with
  | some form =>
      have opcode := Opcode.moveForm?_eq_some_iff.mp found
      have kept : instruction.narrowed.opcode = .move form := opcode
      exact effect_congr_move kept opcode rfl rfl (moveIndexes_narrowed matched opcode) machine
  | none =>
      have sameValue (reads : instruction.opcode.readsCarrier) :=
        carrierValue_narrowed reads narrow machine
      refine effect_congr_generic rfl found instruction.operationWidth_narrowed sameValue
        (fun _ => ?_) (fun _ _ => rfl)
      rw [carrierIndex?_narrowed]
      rfl

end Instruction

end RegisterVM
