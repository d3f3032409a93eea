import RegisterVM.Instruction.Basic

/-!
# Instruction headers

Every instruction starts with two bytes:

    low byte    flag A (1) | flag B (1) | opcode (6)
    high byte   operand 2 (4) | operand 1 (4)

An operand is four bits, an indirection bit above a register code. What the
flags announce depends on the opcode. For a move, flag A announces an index of
operand 1 and flag B one of operand 2. For any other opcode, flag A announces
an immediate of 16 bits and flag B asks for a 64-bit operation.

`Header.size` is the length of the whole instruction: the header, then one
field for each announcement.
-/

namespace RegisterVM

namespace Operand

/-- The bit of an encoded operand that marks it indirect. -/
def indirectBit : UInt8 := 0x08

/-- The bits of an encoded operand that name its register. -/
def registerMask : UInt8 := 0x07

/-- The operand as four bits. -/
def toNibble (operand : Operand) : UInt8 :=
  operand.register.code ||| (if operand.indirect then indirectBit else 0)

/-- The operand in the low four bits of `nibble`. -/
def ofNibble (nibble : UInt8) : Except DecodeFault Operand :=
  match Register.ofCode (nibble &&& registerMask) with
  | .error fault => .error fault
  | .ok register => .ok ⟨register, nibble &&& indirectBit != 0⟩

@[simp] theorem ofNibble_toNibble (operand : Operand) :
    ofNibble operand.toNibble = .ok operand := by
  obtain ⟨register, indirect⟩ := operand
  cases register <;> cases indirect <;> rfl

end Operand

/-- The two bytes that every instruction starts with, read. -/
structure Header where
  opcode : Opcode
  flagA : Bool
  flagB : Bool
  operand1 : Operand
  operand2 : Operand
  deriving DecidableEq

/-- The width of each field that may trail a header with this opcode: an index
of a move, the immediate of any other. -/
def Opcode.fieldWidth : Opcode → Width
  | move form => form.indexWidth
  | _ => .word

/-- Whether flag B announces a second field, as it does for a move alone. -/
def Opcode.hasSecondField (opcode : Opcode) : Bool :=
  opcode.moveForm?.isSome

namespace Header

/-- The bytes of a header. -/
def bytes : Nat := 2

/-- The bytes of the longest instruction: a move with two quad indexes. -/
def longest : Nat := 18

/-- The bit of the low byte that holds flag A. -/
def bitA : UInt8 := 0x80

/-- The bit of the low byte that holds flag B. -/
def bitB : UInt8 := 0x40

/-- The length of an instruction with this opcode and these flags. -/
def sizeOf (opcode : Opcode) (flagA flagB : Bool) : Nat :=
  bytes + (flagA.toNat + (opcode.hasSecondField && flagB).toNat) * opcode.fieldWidth.bytes

/-- The length of the instruction that the header starts. -/
def size (header : Header) : Nat :=
  sizeOf header.opcode header.flagA header.flagB

/-- Reads a header off its two bytes. -/
def ofBytes (low high : UInt8) : Except DecodeFault Header :=
  match Operand.ofNibble high with
  | .error fault => .error fault
  | .ok operand1 =>
      match Operand.ofNibble (high >>> 4) with
      | .error fault => .error fault
      | .ok operand2 =>
          .ok
            { opcode := Opcode.ofCode low
              flagA := low &&& bitA != 0
              flagB := low &&& bitB != 0
              operand1
              operand2 }

/-- The low byte of the header. -/
def lowByte (header : Header) : UInt8 :=
  header.opcode.code ||| (if header.flagA then bitA else 0)
    ||| (if header.flagB then bitB else 0)

/-- The high byte of the header. -/
def highByte (header : Header) : UInt8 :=
  header.operand1.toNibble ||| header.operand2.toNibble <<< 4

end Header

/-- The length of the instruction that starts with the header word `header`,
whose low byte comes first. It says how much of a byte stream to provide for
decoding, and how far to advance afterwards. -/
def instructionSize (header : UInt16) : Nat :=
  let low := header.toUInt8
  Header.sizeOf (Opcode.ofCode low) (low &&& Header.bitA != 0) (low &&& Header.bitB != 0)

/-! ## Reading a header back -/

private theorem lowByte_fields :
    ∀ opcode ∈ Opcode.all, ∀ flagA flagB : Bool,
      let low := opcode.code ||| (if flagA then Header.bitA else 0)
        ||| (if flagB then Header.bitB else 0)
      Opcode.ofCode low = opcode ∧ (low &&& Header.bitA != 0) = flagA
        ∧ (low &&& Header.bitB != 0) = flagB := by
  decide

private theorem highByte_fields (operand1 operand2 : Operand) :
    Operand.ofNibble (operand1.toNibble ||| operand2.toNibble <<< 4) = .ok operand1
      ∧ Operand.ofNibble ((operand1.toNibble ||| operand2.toNibble <<< 4) >>> 4)
        = .ok operand2 := by
  obtain ⟨register1, indirect1⟩ := operand1
  obtain ⟨register2, indirect2⟩ := operand2
  cases indirect1 <;> cases indirect2 <;> cases register1 <;> cases register2 <;> exact ⟨rfl, rfl⟩

/-- A header is read back from its own bytes. -/
theorem Header.ofBytes_lowByte_highByte (header : Header) :
    ofBytes header.lowByte header.highByte = .ok header := by
  obtain ⟨opcode, flagA, flagB, operand1, operand2⟩ := header
  obtain ⟨opcodeKept, flagAKept, flagBKept⟩ :=
    lowByte_fields opcode (Opcode.mem_all opcode) flagA flagB
  obtain ⟨operand1Kept, operand2Kept⟩ := highByte_fields operand1 operand2
  simp only [ofBytes, lowByte, highByte, operand1Kept, operand2Kept, opcodeKept, flagAKept,
    flagBKept]

theorem Header.two_le_size (header : Header) : 2 ≤ header.size :=
  Nat.le_add_right _ _

theorem Header.size_le_longest (header : Header) : header.size ≤ longest := by
  have first := Bool.toNat_le header.flagA
  have second := Bool.toNat_le (header.opcode.hasSecondField && header.flagB)
  have := Nat.mul_le_mul (Nat.add_le_add first second) header.opcode.fieldWidth.bytes_le
  simp only [size, sizeOf, bytes, longest]
  omega

end RegisterVM
