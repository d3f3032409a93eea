import RegisterVM.Proofs.Codec.RoundTrip

/-!
# What is decoded spells the bytes it was read from

Encoding an instruction that was decoded gives the bytes back that it took
(`encode_of_decode`), but for the code of a reserved opcode: it is read as a
`NOP`, and a `NOP` has the code zero. Everything else about such a header
survives, with the immediate that it may announce. `clearReserved` is thus the
one spelling of an instruction among all that are read as it.
-/

namespace RegisterVM

/-- The bytes of an instruction with a reserved opcode's code replaced by that of
`NOP`. -/
def clearReserved : List UInt8 → List UInt8
  | [] => []
  | low :: rest => (if Opcode.ofCode low = .nop then low &&& ~~~Opcode.codeMask else low) :: rest

@[simp] theorem length_clearReserved (bytes : List UInt8) :
    (clearReserved bytes).length = bytes.length := by
  cases bytes <;> rfl

/-! ## The header -/

/-- An opcode that is not `NOP` was found under its code. -/
theorem Opcode.code_ofCode {raw : UInt8} (assigned : ofCode raw ≠ .nop) :
    (ofCode raw).code = raw &&& codeMask := by
  cases found : all.find? (·.code == raw &&& codeMask) with
  | none => exact absurd (by rw [ofCode, found]; rfl) assigned
  | some opcode =>
      have named : ofCode raw = opcode := by
        rw [ofCode, found]
        rfl
      rw [named]
      simpa using List.find?_some found

theorem Register.code_of_ofCode {raw : UInt8} {register : Register}
    (read : ofCode raw = .ok register) : register.code = raw := by
  unfold ofCode at read
  split at read
  next found =>
    injection read with same
    subst same
    simpa using List.find?_some found
  next => contradiction

/-- A statement that holds of every byte, if it holds of the first 256
numbers. -/
private theorem byte_induction {holds : UInt8 → Prop}
    (each : ∀ number < 256, holds (UInt8.ofNat number)) (byte : UInt8) : holds byte := by
  rw [← UInt8.ofNat_toNat (x := byte)]
  exact each byte.toNat byte.toNat_lt

/-- The bits of a byte that the first of two operands stands in. -/
def Operand.nibbleMask : UInt8 := 0x0f

private theorem nibble_bits (nibble : UInt8) :
    (nibble &&& Operand.registerMask)
        ||| (if nibble &&& Operand.indirectBit != 0 then Operand.indirectBit else 0)
      = nibble &&& Operand.nibbleMask := by
  revert nibble
  exact byte_induction (by decide +kernel)

private theorem highByte_bits (high : UInt8) :
    (high &&& Operand.nibbleMask) ||| ((high >>> 4) &&& Operand.nibbleMask) <<< 4 = high := by
  revert high
  exact byte_induction (by decide +kernel)

private theorem lowByte_bits (low : UInt8) :
    (low &&& Opcode.codeMask) ||| (if low &&& Header.bitA != 0 then Header.bitA else 0)
        ||| (if low &&& Header.bitB != 0 then Header.bitB else 0) = low
    ∧ 0 ||| (if low &&& Header.bitA != 0 then Header.bitA else 0)
        ||| (if low &&& Header.bitB != 0 then Header.bitB else 0)
      = low &&& ~~~Opcode.codeMask := by
  revert low
  exact byte_induction (by decide +kernel)

theorem Operand.toNibble_of_ofNibble {nibble : UInt8} {operand : Operand}
    (read : ofNibble nibble = .ok operand) : operand.toNibble = nibble &&& nibbleMask := by
  unfold ofNibble at read
  split at read
  next => contradiction
  next register found =>
    injection read with same
    subst same
    rw [toNibble, Register.code_of_ofCode found, nibble_bits]

/-- A header that was read spells its two bytes, but for the code of a reserved
opcode. -/
theorem Header.bytes_of_ofBytes {low high : UInt8} {header : Header}
    (read : ofBytes low high = .ok header) :
    header.lowByte = (if Opcode.ofCode low = .nop then low &&& ~~~Opcode.codeMask else low)
      ∧ header.highByte = high := by
  unfold ofBytes at read
  split at read
  next => contradiction
  next operand1 read1 =>
    split at read
    next => contradiction
    next operand2 read2 =>
      injection read with same
      subst same
      refine ⟨?_, ?_⟩
      · obtain ⟨assignedKept, reservedKept⟩ := lowByte_bits low
        by_cases reserved : Opcode.ofCode low = .nop
        · rw [if_pos reserved, ← reservedKept, lowByte, reserved]
          rfl
        · rw [if_neg reserved, lowByte, Opcode.code_ofCode reserved]
          exact assignedKept
      · rw [highByte, Operand.toNibble_of_ofNibble read1, Operand.toNibble_of_ofNibble read2,
          highByte_bits]

/-! ## The fields behind it -/

theorem encodeField_of_field? {announced : Bool} {width : Width} {bytes rest : List UInt8}
    {value : Option Nat} (read : field? announced width bytes = some (value, rest)) :
    bytes = encodeField width value ++ rest := by
  cases announced with
  | false =>
      simp only [field?, Bool.false_eq_true, if_false, Option.some.injEq, Prod.mk.injEq] at read
      obtain ⟨rfl, rfl⟩ := read
      rfl
  | true =>
      simp only [field?, if_true, LittleEndian.decodeFront?] at read
      split at read
      next enough =>
        simp only [Option.map_some, Option.some.injEq, Prod.mk.injEq] at read
        obtain ⟨rfl, rfl⟩ := read
        have spelled := LittleEndian.encode_decode (bytes.take width.bytes)
        rw [List.length_take_of_le enough] at spelled
        rw [encodeField, spelled, List.take_append_drop]
      next => simp at read

theorem Header.encodeField_of_fields? {header : Header} {rest : List UInt8}
    {first second : Option Nat} (read : header.fields? rest = some (first, second)) :
    ∃ trailing, rest = encodeField header.opcode.fieldWidth first
      ++ encodeField header.opcode.fieldWidth second ++ trailing := by
  unfold fields? at read
  split at read
  next => contradiction
  next read1 =>
    split at read
    next => contradiction
    next trailing read2 =>
      simp only [Option.some.injEq, Prod.mk.injEq] at read
      obtain ⟨rfl, rfl⟩ := read
      refine ⟨trailing, ?_⟩
      rw [encodeField_of_field? read1, encodeField_of_field? read2, List.append_assoc]

/-- A field that fits passes through the word that it is kept in. -/
private theorem field_kept {word : Type} {ofNat : Nat → word} {toNat : word → Nat} {bound : Nat}
    (kept : ∀ number < bound, toNat (ofNat number) = number) {field : Option Nat}
    (fits : ∀ number ∈ field, number < bound) : (field.map ofNat).map toNat = field := by
  cases field with
  | none => rfl
  | some number => exact congrArg some (kept number (fits number rfl))

/-- Arguments made of fields that fit are written as these fields. -/
theorem Header.encode_arguments {header : Header} {first second : Option Nat}
    (announced : second.isSome = (header.opcode.hasSecondField && header.flagB))
    (fits1 : ∀ number ∈ first, number < 256 ^ header.opcode.fieldWidth.bytes)
    (fits2 : ∀ number ∈ second, number < 256 ^ header.opcode.fieldWidth.bytes) :
    (header.arguments first second).encode
      = encodeField header.opcode.fieldWidth first
        ++ encodeField header.opcode.fieldWidth second := by
  obtain ⟨opcode, flagA, flagB, operand1, operand2⟩ := header
  cases opcode with
  | move form =>
      have room : 256 ^ form.indexWidth.bytes ≤ 256 ^ 8 :=
        Nat.pow_le_pow_right (by omega) form.indexWidth.bytes_le
      have kept (number : Nat) (small : number < 256 ^ form.indexWidth.bytes) :
          (UInt64.ofNat number).toNat = number :=
        UInt64.toNat_ofNat_of_lt (Nat.lt_of_lt_of_le small room)
      show encodeField _ ((first.map UInt64.ofNat).map UInt64.toNat)
        ++ encodeField _ ((second.map UInt64.ofNat).map UInt64.toNat) = _
      rw [field_kept kept fits1, field_kept kept fits2]
      rfl
  | _ =>
      have kept (number : Nat) (small : number < 256 ^ Width.word.bytes) :
          (UInt32.ofNat number).toNat = number :=
        UInt32.toNat_ofNat_of_lt (Nat.lt_of_lt_of_le small (by decide))
      obtain rfl : second = none := Option.isNone_iff_eq_none.mp
        (Option.isSome_eq_false_iff.mp announced)
      show encodeField _ ((first.map UInt32.ofNat).map UInt32.toNat) = _
      rw [field_kept kept fits1]
      exact (List.append_nil _).symm

/-! ## The whole instruction -/

/-- A header and the fields that it announces are written as the bytes that they
were read from. -/
theorem Header.encode_of_fields? {low high : UInt8} {header : Header} {rest : List UInt8}
    {first second : Option Nat} (found : ofBytes low high = .ok header)
    (present : header.fields? rest = some (first, second)) :
    ∃ fields trailing, rest = fields ++ trailing
      ∧ Instruction.encode
          ⟨header.opcode, header.operand1, header.operand2, header.arguments first second⟩
        = clearReserved (low :: high :: fields) := by
  obtain ⟨⟨announced1, fits1⟩, announced2, fits2⟩ := fields?_fit present
  obtain ⟨trailing, split⟩ := encodeField_of_fields? present
  obtain ⟨lowByte, highByte⟩ := bytes_of_ofBytes found
  have kept := (header.arguments_wellFormed announced1 announced2 fits1 fits2).2
  refine ⟨_, trailing, split, ?_⟩
  rw [Instruction.encode, kept, lowByte, highByte, encode_arguments announced2 fits1 fits2]
  rfl

/-- The encoding of a decoded instruction is what it was read from, with the code
of a reserved opcode cleared. -/
theorem encode_of_decode {bytes : List UInt8} {decoded : Decoded}
    (read : decode bytes = .ok decoded) :
    decoded.instruction.encode = clearReserved (bytes.take decoded.size) := by
  obtain ⟨formed, size, -⟩ := decodeWithin_ok read
  rw [← formed.length_encode] at size
  obtain ⟨low, high, rest, header, first, second, rfl, found, present, rfl⟩ :=
    decodeWithin_eq_ok read
  obtain ⟨fields, trailing, rfl, spelled⟩ := Header.encode_of_fields? found present
  -- The size is the length of the encoding, so that it cuts off what trails.
  have front : (low :: high :: (fields ++ trailing)).take header.size
      = low :: high :: fields := by
    show ((low :: high :: fields) ++ trailing).take header.size = low :: high :: fields
    refine List.take_left' ?_
    rw [← length_clearReserved, ← spelled]
    exact size.symm
  rw [front]
  exact spelled

/-- **Canonical spelling.** What is decoded is encoded as the bytes that it took,
with the code of a reserved opcode cleared. Two byte strings are therefore decoded
to one instruction exactly if the bytes that they take for it differ in nothing
but reserved codes. -/
theorem decode_eq_iff_clearReserved :
    (∀ bytes decoded, decode bytes = .ok decoded →
      decoded.instruction.encode = clearReserved (bytes.take decoded.size))
    ∧ (∀ bytes other decoded decoded', decode bytes = .ok decoded →
      decode other = .ok decoded' →
        (decoded.instruction = decoded'.instruction
          ↔ clearReserved (bytes.take decoded.size)
            = clearReserved (other.take decoded'.size))) := by
  refine ⟨?_, ?_⟩
  · intro bytes decoded read
    exact encode_of_decode read
  · intro bytes other decoded decoded' read read'
    rw [← encode_of_decode read, ← encode_of_decode read']
    constructor
    · intro same
      rw [same]
    · intro sameBytes
      -- Both are well formed, and so they are read back from their encodings.
      have back := decode_encode_append (decodeWithin_ok read).1 []
      have back' := decode_encode_append (decodeWithin_ok read').1 []
      rw [sameBytes, back'] at back
      injection back with same
      injection same with sameInstruction
      exact sameInstruction.symm

/-- A reserved code with both flags set still has its immediate, and is told from
a `NOP` with the same flags by its code alone. -/
theorem decode_eq_iff_clearReserved_unassigned :
    let reserved : List UInt8 := [0xd9, 0x21, 0x34, 0x12, 0x07]
    let plain : List UInt8 := [0xc0, 0x21, 0x34, 0x12]
    let nop : Instruction := ⟨.nop, ⟨.r1, false⟩, ⟨.r2, false⟩, .generic true (some 0x1234)⟩
    decode reserved = .ok ⟨nop, 4⟩ ∧ decode plain = .ok ⟨nop, 4⟩
      ∧ nop.encode = plain ∧ nop.encode = clearReserved (reserved.take 4)
      ∧ clearReserved (reserved.take 4) = clearReserved (plain.take 4) := by
  intro reserved plain nop
  have readReserved : decode reserved = .ok ⟨nop, 4⟩ := rfl
  have readPlain : decode plain = .ok ⟨nop, 4⟩ := rfl
  obtain ⟨spelled, same⟩ := decode_eq_iff_clearReserved
  have spelledPlain := spelled plain ⟨nop, 4⟩ readPlain
  have spelledReserved := spelled reserved ⟨nop, 4⟩ readReserved
  have sameBytes := (same reserved plain ⟨nop, 4⟩ ⟨nop, 4⟩ readReserved readPlain).mp rfl
  exact ⟨readReserved, readPlain, spelledPlain.trans (by decide), spelledReserved, sameBytes⟩

end RegisterVM
