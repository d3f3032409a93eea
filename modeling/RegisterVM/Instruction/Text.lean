import RegisterVM.Instruction.Basic

/-!
# Disassembly

The text of an instruction in a listing. A generic instruction shows its
operation width behind the mnemonic, and its immediate behind the operand that
carries it: as a displacement if that operand is indirect, else as a plain
value at the end. A move shows the index of each operand that has one.
-/

namespace RegisterVM

/-- The operand, marked if indirect, with an index behind it if there is
one. -/
def Operand.text (operand : Operand) (index : Option NaturalIndex) : List Char :=
  (if operand.indirect then ['@'] else []) ++ operand.register.text
    ++ (match index with
      | none => []
      | some index => index.text)

namespace Instruction

/-- The carrier of the immediate with all that it shows: its displacement if
indirect, else the plain value. -/
def carrierText (instruction : Instruction) : List Char :=
  if instruction.carrier.indirect then
    instruction.carrier.text instruction.carrierIndex?
  else
    instruction.carrier.text none
      ++ (match instruction.immediate? with
        | none => []
        | some immediate => ' ' :: Numeral.hex immediate.toNat)

/-- The operands of a generic instruction. -/
def genericOperands (instruction : Instruction) : List Char :=
  match instruction.opcode with
  | .push | .pop => instruction.carrierText
  | _ => instruction.operand1.text none ++ [',', ' '] ++ instruction.carrierText

/-- The instruction as a line of a listing. Which of the two layouts it has is
up to its arguments. -/
def text (instruction : Instruction) : List Char :=
  let mnemonic := instruction.opcode.mnemonic.toList
  match instruction.arguments with
  | .generic wide _ =>
      match instruction.opcode with
      | .nop | .ret => mnemonic
      | _ => mnemonic ++ (Width.natural wide).text ++ ' ' :: instruction.genericOperands
  | .move _ indexWidth index1 index2 =>
      mnemonic ++ ' ' :: instruction.operand1.text (index1.map (NaturalIndex.decode indexWidth))
        ++ ',' :: ' ' :: instruction.operand2.text (index2.map (NaturalIndex.decode indexWidth))

end Instruction

instance : ToString Instruction where
  toString instruction := String.ofList instruction.text

end RegisterVM
