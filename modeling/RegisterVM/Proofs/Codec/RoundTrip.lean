import RegisterVM.Proofs.Codec.WellFormed

/-!
# Decoding encoded instructions

A well-formed instruction is read back from its own encoding, whatever bytes
stand behind it, and takes there exactly the bytes of its encoding
(`decode_encode_append`). No other record is ever read back: an encoding whose
arguments do not match the opcode, or do not fit, is read as some other record or
as none at all.
-/

namespace RegisterVM

theorem field?_encodeField {announced : Bool} {width : Width} {value : Option Nat}
    (flag : announced = value.isSome) (fits : ∀ number ∈ value, number < 256 ^ width.bytes)
    (rest : List UInt8) :
    field? announced width (encodeField width value ++ rest) = some (value, rest) := by
  subst flag
  cases value with
  | none => rfl
  | some number =>
      show (LittleEndian.decodeFront? width.bytes (LittleEndian.encode width.bytes number ++ rest)
        ).map _ = _
      rw [LittleEndian.decodeFront?_encode (fits number rfl)]
      rfl

theorem length_encodeField (width : Width) (value : Option Nat) :
    (encodeField width value).length = value.isSome.toNat * width.bytes := by
  cases value with
  | none => exact (Nat.zero_mul _).symm
  | some number =>
      show (LittleEndian.encode _ _).length = 1 * _
      rw [LittleEndian.length_encode, Nat.one_mul]

/-- The encoding of a well-formed instruction is as long as its header says. -/
theorem Instruction.WellFormed.length_encode {instruction : Instruction}
    (formed : instruction.WellFormed) :
    instruction.encode.length = instruction.header.size := by
  obtain ⟨opcode, operand1, operand2, arguments⟩ := instruction
  rcases formed.move_or_generic with
    ⟨form, index1, index2, rfl, rfl, -, -⟩ | ⟨wide, immediate, generic, rfl, -⟩
  · show (encodeField _ _ ++ encodeField _ _).length + 2
      = 2 + (index1.isSome.toNat + index2.isSome.toNat) * form.indexWidth.bytes
    rw [List.length_append, length_encodeField, length_encodeField, Option.isSome_map,
      Option.isSome_map, ← Nat.add_mul, Nat.add_comm]
  · obtain ⟨width, single⟩ := Opcode.fields_of_generic generic
    show (encodeField _ _).length + 2
      = 2 + (immediate.isSome.toNat + (opcode.hasSecondField && wide).toNat)
        * opcode.fieldWidth.bytes
    rw [length_encodeField, Option.isSome_map, width, single, Nat.add_comm]
    rfl

/-- The fields that the header of a well-formed instruction announces are read
back, and mean its arguments. -/
theorem Instruction.WellFormed.fields?_encode {instruction : Instruction}
    (formed : instruction.WellFormed) (trailing : List UInt8) :
    ∃ first second,
      instruction.header.fields? (instruction.arguments.encode ++ trailing) = some (first, second)
        ∧ instruction.header.arguments first second = instruction.arguments := by
  obtain ⟨opcode, operand1, operand2, arguments⟩ := instruction
  rcases formed.move_or_generic with
    ⟨form, index1, index2, rfl, rfl, fits1, fits2⟩ | ⟨wide, immediate, generic, rfl, fits⟩
  · refine ⟨index1.map UInt64.toNat, index2.map UInt64.toNat, ?_, ?_⟩
    · simp only [Header.fields?, header, Arguments.encode, Arguments.flagA, Arguments.flagB,
        Opcode.fieldWidth, List.append_assoc]
      rw [field?_encodeField Option.isSome_map.symm fits1]
      simp only [Opcode.hasSecondField, Opcode.moveForm?, Option.isSome_some, Bool.true_and]
      rw [field?_encodeField Option.isSome_map.symm fits2]
    · simp only [Header.arguments, header, Option.map_map, Function.comp_def, UInt64.ofNat_toNat,
        Option.map_id']
  · obtain ⟨width, single⟩ := Opcode.fields_of_generic generic
    refine ⟨immediate.map UInt32.toNat, none, ?_, ?_⟩
    · simp only [Header.fields?, header, Arguments.encode, Arguments.flagA, width, single]
      rw [field?_encodeField Option.isSome_map.symm fits]
      rfl
    · have same : (immediate.map UInt32.toNat).map UInt32.ofNat = immediate := by
        simp only [Option.map_map, Function.comp_def, UInt32.ofNat_toNat, Option.map_id']
      cases opcode with
      | move form => contradiction
      | _ => exact congrArg (Arguments.generic wide) same

theorem decode_encode_append {instruction : Instruction} (formed : instruction.WellFormed)
    (trailing : List UInt8) :
    decode (instruction.encode ++ trailing) = .ok ⟨instruction, instruction.encode.length⟩ := by
  obtain ⟨first, second, read, meaning⟩ := formed.fields?_encode trailing
  rw [formed.length_encode]
  simp only [decode, Instruction.encode, List.cons_append, decodeWithin,
    Header.ofBytes_lowByte_highByte, Header.complete, read, meaning]
  rfl

/-- The well-formed instructions are those that some bytes are read as. -/
theorem Instruction.wellFormed_iff_exists_decode {instruction : Instruction} :
    instruction.WellFormed ↔ ∃ bytes size, decode bytes = .ok ⟨instruction, size⟩ := by
  constructor
  · intro formed
    exact ⟨_, _, decode_encode_append formed []⟩
  · rintro ⟨bytes, size, read⟩
    exact (decodeWithin_ok read).1

/-- **Round trip.** An instruction is read back from its encoding, followed by
any bytes, exactly if it is well formed; what it takes there is then also told by
its header word alone. -/
theorem decode_encode_append_iff_wellFormed (instruction : Instruction) (trailing : List UInt8) :
    (decode (instruction.encode ++ trailing) = .ok ⟨instruction, instruction.encode.length⟩
      ↔ instruction.WellFormed)
    ∧ (instruction.WellFormed →
        instruction.encode.length = instructionSize (headerWord instruction.encode)) := by
  refine ⟨?_, ?_⟩
  · constructor
    · intro read
      exact (decodeWithin_ok read).1
    · intro formed
      exact decode_encode_append formed trailing
  · intro formed
    rw [formed.length_encode]
    exact (instructionSize_headerWord instruction.header.ofBytes_lowByte_highByte).symm

/-- A move between two displaced addresses, with a byte behind it. -/
theorem decode_encode_append_move_double :
    let instruction : Instruction :=
      { opcode := .move .qd
        operand1 := ⟨.r1, true⟩
        operand2 := ⟨.r2, true⟩
        arguments := .move .quad .double (some 0x10000123) (some 0x80000001) }
    instruction.WellFormed
      ∧ decode (instruction.encode ++ [0xff]) = .ok ⟨instruction, 10⟩
      ∧ instructionSize (headerWord instruction.encode) = 10 := by
  intro instruction
  have formed : instruction.WellFormed := by
    refine ⟨rfl, rfl, ?_, ?_⟩
    · intro index given
      obtain rfl := Option.some.inj given
      decide
    · intro index given
      obtain rfl := Option.some.inj given
      decide
  obtain ⟨roundTrip, size⟩ := decode_encode_append_iff_wellFormed instruction [0xff]
  exact ⟨formed, roundTrip.mpr formed, (size formed).symm⟩

end RegisterVM
