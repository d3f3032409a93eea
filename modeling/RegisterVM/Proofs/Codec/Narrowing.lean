import RegisterVM.Proofs.Codec.RoundTrip

/-!
# What an encoding has no room for

An immediate is written in 16 bits, and an index of a move in the bits that the move has
for it. What does not fit is left out: a record whose arguments are of its opcode's own
kind is written as the one with its numbers reduced to their room (`encode_narrowed`),
which is well formed and thus what is read back (`decode_encode_append_of_matched`).
-/

namespace RegisterVM

/-- The arguments with the immediate reduced to 16 bits, or each index to the bits of
the width that the arguments name for it. -/
def Arguments.narrowed : Arguments → Arguments
  | generic wide immediate =>
      .generic wide (immediate.map fun value => .ofNat (value.toNat % 2 ^ 16))
  | move valueWidth indexWidth index1 index2 =>
      let cut (index : UInt64) : UInt64 := .ofNat (index.toNat % 2 ^ indexWidth.bits)
      .move valueWidth indexWidth (index1.map cut) (index2.map cut)

/-- The record with its immediate and its indexes reduced to the room that they are
encoded in. -/
def Instruction.narrowed (instruction : Instruction) : Instruction :=
  { instruction with arguments := instruction.arguments.narrowed }

/-! ## The same bytes -/

/-- A number that was reduced stays what it was in the word that it is kept in. -/
theorem Width.toNat_ofNat_mod (width : Width) (value : UInt64) :
    (UInt64.ofNat (value.toNat % 2 ^ width.bits)).toNat = value.toNat % 2 ^ width.bits :=
  UInt64.toNat_ofNat_of_lt (Nat.lt_of_le_of_lt (Nat.mod_le _ _) value.toNat_lt)

theorem toNat_ofNat_mod_word (value : UInt32) :
    (UInt32.ofNat (value.toNat % 2 ^ 16)).toNat = value.toNat % 2 ^ 16 :=
  UInt32.toNat_ofNat_of_lt (Nat.lt_of_le_of_lt (Nat.mod_le _ _) value.toNat_lt)

/-- A field is written as its number reduced to the room of the field. -/
theorem encodeField_mod (width : Width) (value : Option Nat) :
    encodeField width (value.map (· % 2 ^ width.bits)) = encodeField width value := by
  cases value with
  | none => rfl
  | some number =>
      rw [Width.bits, Nat.pow_mul]
      exact LittleEndian.encode_mod width.bytes number

theorem Arguments.encode_narrowed (arguments : Arguments) :
    arguments.narrowed.encode = arguments.encode := by
  cases arguments with
  | generic wide immediate =>
      have cut := encodeField_mod .word (immediate.map UInt32.toNat)
      rw [Option.map_map] at cut
      simp only [narrowed, encode, Option.map_map]
      rw [← cut]
      exact congrArg (encodeField .word <| immediate.map ·) (funext toNat_ofNat_mod_word)
  | move valueWidth indexWidth index1 index2 =>
      have cut (index : Option UInt64) :
          encodeField indexWidth ((index.map fun index =>
            UInt64.ofNat (index.toNat % 2 ^ indexWidth.bits)).map UInt64.toNat)
            = encodeField indexWidth (index.map UInt64.toNat) := by
        rw [← encodeField_mod indexWidth (index.map UInt64.toNat), Option.map_map, Option.map_map]
        exact congrArg (encodeField indexWidth <| index.map ·)
          (funext indexWidth.toNat_ofNat_mod)
      simp only [narrowed, encode, cut]

theorem Instruction.header_narrowed (instruction : Instruction) :
    instruction.narrowed.header = instruction.header := by
  obtain ⟨opcode, operand1, operand2, arguments⟩ := instruction
  cases arguments <;> simp [header, narrowed, Arguments.narrowed, Arguments.flagA, Arguments.flagB]

theorem Instruction.encode_narrowed (instruction : Instruction) :
    instruction.narrowed.encode = instruction.encode := by
  rw [encode, encode, header_narrowed, narrowed, Arguments.encode_narrowed]

/-! ## What is read back -/

theorem Instruction.Matched.narrowed_wellFormed {instruction : Instruction}
    (matched : instruction.Matched) : instruction.narrowed.WellFormed := by
  obtain ⟨opcode, operand1, operand2, arguments⟩ := instruction
  rcases matched.move_or_generic with
    ⟨form, index1, index2, rfl, rfl⟩ | ⟨wide, immediate, generic, rfl⟩
  · have fits (index : Option UInt64) : ∀ given ∈ index.map fun index =>
        UInt64.ofNat (index.toNat % 2 ^ form.indexWidth.bits),
        given.toNat < 2 ^ form.indexWidth.bits := by
      intro given there
      obtain ⟨value, -, rfl⟩ := Option.map_eq_some_iff.mp there
      rw [Width.toNat_ofNat_mod]
      exact Nat.mod_lt _ (Nat.two_pow_pos _)
    exact ⟨rfl, rfl, fits index1, fits index2⟩
  · have fits : ∀ given ∈ immediate.map fun value => UInt32.ofNat (value.toNat % 2 ^ 16),
        given.toNat ≤ 0xffff := by
      intro given there
      obtain ⟨value, -, rfl⟩ := Option.map_eq_some_iff.mp there
      rw [toNat_ofNat_mod_word]
      exact Nat.le_of_lt_succ (Nat.mod_lt _ (by decide))
    cases opcode with
    | move form => contradiction
    | _ => exact fits

/-- A record with arguments of its opcode's own kind is read back reduced to its room. -/
theorem decode_encode_append_of_matched {instruction : Instruction}
    (matched : instruction.Matched) (trailing : List UInt8) :
    decode (instruction.encode ++ trailing)
      = .ok ⟨instruction.narrowed, instruction.encode.length⟩ := by
  rw [← instruction.encode_narrowed]
  exact decode_encode_append matched.narrowed_wellFormed trailing

end RegisterVM
