import RegisterVM.Instruction.Codec
import RegisterVM.Proofs.Word.Remainder

/-!
# Well-formed instructions

A record is well formed if its arguments are of its opcode's own kind and
widths, and each field fits the room that the encoding has for it. Decoding
makes no other records (`decodeWithin_ok`), and the record that it makes has the
header that was read.
-/

namespace RegisterVM

/-- The arguments are of the opcode's own kind: those of a move with the widths of this
move, or generic ones of any other opcode. -/
def Instruction.Matched (instruction : Instruction) : Prop :=
  match instruction.opcode.moveForm?, instruction.arguments with
  | some form, .move valueWidth indexWidth _ _ =>
      valueWidth = form.valueWidth ∧ indexWidth = form.indexWidth
  | none, .generic .. => True
  | _, _ => False

/-- The two kinds of instructions whose arguments match. -/
theorem Instruction.Matched.move_or_generic {instruction : Instruction}
    (matched : instruction.Matched) :
    (∃ form index1 index2, instruction.opcode = .move form
      ∧ instruction.arguments = .move form.valueWidth form.indexWidth index1 index2)
    ∨ (∃ wide immediate, instruction.opcode.moveForm? = none
      ∧ instruction.arguments = .generic wide immediate) := by
  obtain ⟨opcode, operand1, operand2, arguments⟩ := instruction
  cases opcode with
  | move form =>
      cases arguments with
      | generic wide immediate => exact absurd matched id
      | move valueWidth indexWidth index1 index2 =>
          obtain ⟨rfl, rfl⟩ := matched
          exact .inl ⟨form, index1, index2, rfl, rfl⟩
  | _ =>
      cases arguments with
      | generic wide immediate => exact .inr ⟨wide, immediate, rfl, rfl⟩
      | move valueWidth indexWidth index1 index2 => exact absurd matched id

/-- The arguments of a move with the move's own widths and indexes of the bits
that it has for them, or generic arguments of another opcode with an immediate of
16 bits. -/
def Instruction.WellFormed (instruction : Instruction) : Prop :=
  match instruction.opcode.moveForm?, instruction.arguments with
  | some form, .move valueWidth indexWidth index1 index2 =>
      valueWidth = form.valueWidth ∧ indexWidth = form.indexWidth
        ∧ (∀ index ∈ index1, index.toNat < 2 ^ form.indexWidth.bits)
        ∧ (∀ index ∈ index2, index.toNat < 2 ^ form.indexWidth.bits)
  | none, .generic _ immediate => ∀ value ∈ immediate, value.toNat ≤ 0xffff
  | _, _ => False

namespace Instruction.WellFormed

instance decidable (instruction : Instruction) : Decidable instruction.WellFormed :=
  -- Found by search, the instance could go through every word there is.
  have fits (width : Width) (index : Option UInt64) :
      Decidable (∀ given ∈ index, given.toNat < 2 ^ width.bits) :=
    Option.decidableForallMem index
  have small (immediate : Option UInt32) : Decidable (∀ value ∈ immediate, value.toNat ≤ 0xffff) :=
    Option.decidableForallMem immediate
  match form : instruction.opcode.moveForm?, given : instruction.arguments with
  | some own, .move valueWidth indexWidth index1 index2 =>
      decidable_of_iff
        (valueWidth = own.valueWidth ∧ indexWidth = own.indexWidth
          ∧ (∀ index ∈ index1, index.toNat < 2 ^ own.indexWidth.bits)
          ∧ (∀ index ∈ index2, index.toNat < 2 ^ own.indexWidth.bits))
        (by simp only [WellFormed, form, given])
  | none, .generic _ immediate =>
      decidable_of_iff (∀ value ∈ immediate, value.toNat ≤ 0xffff)
        (by simp only [WellFormed, form, given])
  | some _, .generic .. => isFalse (by simp only [WellFormed, form, given, not_false_eq_true])
  | none, .move .. => isFalse (by simp only [WellFormed, form, given, not_false_eq_true])

/-- The two kinds of well-formed instructions, with the numbers in their fields. -/
theorem move_or_generic {instruction : Instruction} (formed : instruction.WellFormed) :
    (∃ form index1 index2, instruction.opcode = .move form
      ∧ instruction.arguments = .move form.valueWidth form.indexWidth index1 index2
      ∧ (∀ number ∈ index1.map UInt64.toNat, number < 256 ^ form.indexWidth.bytes)
      ∧ (∀ number ∈ index2.map UInt64.toNat, number < 256 ^ form.indexWidth.bytes))
    ∨ (∃ wide immediate, instruction.opcode.moveForm? = none
      ∧ instruction.arguments = .generic wide immediate
      ∧ ∀ number ∈ immediate.map UInt32.toNat, number < 256 ^ Width.word.bytes) := by
  have room (width : Width) : 2 ^ width.bits = 256 ^ width.bytes := Nat.pow_mul 2 8 width.bytes
  obtain ⟨opcode, operand1, operand2, arguments⟩ := instruction
  cases arguments with
  | generic wide immediate =>
      cases opcode with
      | move form => exact absurd formed id
      | _ =>
          refine .inr ⟨wide, immediate, rfl, rfl, ?_⟩
          intro number there
          obtain ⟨value, given, rfl⟩ := Option.map_eq_some_iff.mp there
          exact Nat.lt_succ_of_le (formed value given)
  | move valueWidth indexWidth index1 index2 =>
      cases opcode with
      | move form =>
          obtain ⟨rfl, rfl, fits1, fits2⟩ := formed
          rw [room] at fits1 fits2
          refine .inl ⟨form, index1, index2, rfl, rfl, ?_, ?_⟩
          · intro number there
            obtain ⟨index, given, rfl⟩ := Option.map_eq_some_iff.mp there
            exact fits1 index given
          · intro number there
            obtain ⟨index, given, rfl⟩ := Option.map_eq_some_iff.mp there
            exact fits2 index given
      | _ => exact absurd formed id

end Instruction.WellFormed

/-- An opcode other than a move announces one field, of 16 bits. -/
theorem Opcode.fields_of_generic {opcode : Opcode} (generic : opcode.moveForm? = none) :
    opcode.fieldWidth = .word ∧ opcode.hasSecondField = false := by
  cases opcode with
  | move form => contradiction
  | _ => exact ⟨rfl, rfl⟩

/-! ## The header word -/

/-- The header word at the front of a byte string, its low byte first. -/
def headerWord (bytes : List UInt8) : UInt16 :=
  UInt16.ofNat (LittleEndian.decode (bytes.take Header.bytes))

theorem toUInt8_headerWord (low high : UInt8) (rest : List UInt8) :
    (headerWord (low :: high :: rest)).toUInt8 = low := by
  apply UInt8.toNat.inj
  have first := low.toNat_lt
  have second := high.toNat_lt
  simp only [headerWord, Header.bytes, List.take_succ_cons, List.take_zero, LittleEndian.decode,
    UInt16.toNat_toUInt8, UInt16.toNat_ofNat']
  omega

/-- The size told from the header word alone is that of the header read. -/
theorem instructionSize_headerWord {low high : UInt8} {rest : List UInt8} {header : Header}
    (read : Header.ofBytes low high = .ok header) :
    instructionSize (headerWord (low :: high :: rest)) = header.size := by
  unfold Header.ofBytes at read
  split at read
  next => contradiction
  next =>
    split at read
    next => contradiction
    next =>
      injection read with same
      subst same
      show Header.sizeOf _ _ _ = Header.sizeOf _ _ _
      rw [toUInt8_headerWord]

/-! ## What is decoded -/

/-- A field is there if it is announced, and is a number of its width. -/
theorem field?_fits {announced : Bool} {width : Width} {bytes rest : List UInt8}
    {value : Option Nat} (read : field? announced width bytes = some (value, rest)) :
    value.isSome = announced ∧ ∀ number ∈ value, number < 256 ^ width.bytes := by
  cases announced with
  | false =>
      simp only [field?, Bool.false_eq_true, if_false, Option.some.injEq, Prod.mk.injEq] at read
      obtain ⟨rfl, rfl⟩ := read
      exact ⟨rfl, by simp⟩
  | true =>
      simp only [field?, if_true, LittleEndian.decodeFront?] at read
      split at read
      next enough =>
        simp only [Option.map_some, Option.some.injEq, Prod.mk.injEq] at read
        obtain ⟨rfl, rfl⟩ := read
        refine ⟨rfl, ?_⟩
        intro number there
        obtain rfl := Option.mem_some.mp there
        have bound := LittleEndian.decode_lt (bytes.take width.bytes)
        rwa [List.length_take, Nat.min_eq_left enough] at bound
      next => simp at read

theorem Header.fields?_fit {header : Header} {rest : List UInt8} {first second : Option Nat}
    (read : header.fields? rest = some (first, second)) :
    (first.isSome = header.flagA
      ∧ ∀ number ∈ first, number < 256 ^ header.opcode.fieldWidth.bytes)
    ∧ (second.isSome = (header.opcode.hasSecondField && header.flagB)
      ∧ ∀ number ∈ second, number < 256 ^ header.opcode.fieldWidth.bytes) := by
  unfold fields? at read
  split at read
  next => contradiction
  next read1 =>
    split at read
    next => contradiction
    next read2 =>
      simp only [Option.some.injEq, Prod.mk.injEq] at read
      obtain ⟨rfl, rfl⟩ := read
      exact ⟨field?_fits read1, field?_fits read2⟩

/-- Fields that fit, in the number that the header announces, make up arguments
of which the instruction is well formed and has that header. -/
theorem Header.arguments_wellFormed (header : Header) {first second : Option Nat}
    (announced1 : first.isSome = header.flagA)
    (announced2 : second.isSome = (header.opcode.hasSecondField && header.flagB))
    (fits1 : ∀ number ∈ first, number < 256 ^ header.opcode.fieldWidth.bytes)
    (fits2 : ∀ number ∈ second, number < 256 ^ header.opcode.fieldWidth.bytes) :
    let instruction : Instruction :=
      ⟨header.opcode, header.operand1, header.operand2, header.arguments first second⟩
    instruction.WellFormed ∧ instruction.header = header := by
  obtain ⟨opcode, flagA, flagB, operand1, operand2⟩ := header
  cases opcode with
  | move form =>
      -- Both fields are indexes of the width that the form has.
      have narrow (field : Option Nat)
          (fits : ∀ number ∈ field, number < 256 ^ form.indexWidth.bytes) :
          ∀ index ∈ field.map UInt64.ofNat, index.toNat < 2 ^ form.indexWidth.bits := by
        intro index there
        obtain ⟨number, given, rfl⟩ := Option.map_eq_some_iff.mp there
        rw [Width.bits, Nat.pow_mul]
        exact Nat.lt_of_le_of_lt (Nat.mod_le _ _) (fits number given)
      refine ⟨⟨rfl, rfl, narrow first fits1, narrow second fits2⟩, ?_⟩
      show Header.mk _ (first.map _).isSome (second.map _).isSome _ _ = _
      rw [Option.isSome_map, Option.isSome_map, announced1, announced2]
      rfl
  | _ =>
      refine ⟨?_, ?_⟩
      · intro value there
        obtain ⟨number, given, rfl⟩ := Option.map_eq_some_iff.mp there
        exact Nat.le_of_lt_succ (Nat.lt_of_le_of_lt (Nat.mod_le _ _) (fits1 number given))
      · show Header.mk _ (first.map _).isSome _ _ _ = _
        rw [Option.isSome_map, announced1]
        rfl

/-- What is decoded is well formed, carries the header that was read, and takes
the bytes that this header asks for. -/
theorem decodeWithin_ok {available : Nat} {window : List UInt8} {decoded : Decoded}
    (read : decodeWithin available window = .ok decoded) :
    decoded.instruction.WellFormed
      ∧ decoded.size = decoded.instruction.header.size
      ∧ decoded.size = instructionSize (headerWord window) := by
  obtain ⟨low, high, rest, header, first, second, rfl, found, present, rfl⟩ :=
    decodeWithin_eq_ok read
  obtain ⟨⟨announced1, fits1⟩, announced2, fits2⟩ := Header.fields?_fit present
  obtain ⟨formed, kept⟩ := header.arguments_wellFormed announced1 announced2 fits1 fits2
  refine ⟨formed, ?_, (instructionSize_headerWord found).symm⟩
  show header.size = Header.size (Instruction.header _)
  rw [kept]

end RegisterVM
