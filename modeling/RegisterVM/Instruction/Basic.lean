import RegisterVM.Fault
import RegisterVM.Instruction.Opcode
import RegisterVM.NaturalIndex

/-!
# Instructions

An instruction is an opcode, two operands and the arguments that trail them.
The arguments have the layout of their own kind, not necessarily that of the
opcode: a record put together by hand may pair a move with an immediate, and
each operation on instructions says which of the two it goes by.
-/

namespace RegisterVM

/-- The eight general registers. `r0` is the stack pointer of `PUSH` and
`POP`. -/
inductive Register where
  | r0
  | r1
  | r2
  | r3
  | r4
  | r5
  | r6
  | r7
  deriving DecidableEq

namespace Register

/-- The place of the register in the register file. -/
def index : Register → Fin 8
  | r0 => 0
  | r1 => 1
  | r2 => 2
  | r3 => 3
  | r4 => 4
  | r5 => 5
  | r6 => 6
  | r7 => 7

/-- Every register once, by place. -/
def all : List Register :=
  [r0, r1, r2, r3, r4, r5, r6, r7]

/-- The code of the register in an encoded operand. -/
def code (register : Register) : UInt8 :=
  UInt8.ofNat register.index

/-- The register that `raw` is the code of. -/
def ofCode (raw : UInt8) : Except DecodeFault Register :=
  match all.find? (·.code == raw) with
  | some register => .ok register
  | none => .error (.invalidOperand raw)

/-- The name of the register in a listing. -/
def text (register : Register) : List Char :=
  'R' :: Numeral.decimal register.index

theorem index_injective {r s : Register} (h : r.index = s.index) : r = s := by
  have listed (r : Register) : all[r.index.val]? = some r := by cases r <;> rfl
  exact Option.some.inj ((listed r).symm.trans (h ▸ listed s))

@[simp] theorem ofCode_code (register : Register) : ofCode register.code = .ok register := by
  cases register <;> rfl

end Register

/-- A register operand, read or written through its address if indirect. -/
structure Operand where
  register : Register
  indirect : Bool
  deriving DecidableEq

/-- What trails the operands. -/
inductive Arguments where
  /-- Whether a generic operation is a 64-bit one, and its immediate if it has
  one. -/
  | generic (wide : Bool) (immediate : Option UInt32)
  /-- The widths of a move's value and of its indexes, and the index of each
  operand that has one. -/
  | move (valueWidth indexWidth : Width) (index1 index2 : Option UInt64)
  deriving DecidableEq

/-- An instruction of the machine. -/
structure Instruction where
  opcode : Opcode
  operand1 : Operand
  operand2 : Operand
  arguments : Arguments
  deriving DecidableEq

namespace Instruction

/-- The immediate of generic arguments; a move carries none. -/
def immediate? (instruction : Instruction) : Option UInt32 :=
  match instruction.arguments with
  | .generic _ immediate => immediate
  | .move .. => none

/-- Whether the arguments ask for a 64-bit operation; those of a move never
do. -/
def isWide (instruction : Instruction) : Bool :=
  match instruction.arguments with
  | .generic wide _ => wide
  | .move .. => false

/-- The operand that an immediate belongs to: the only one of `PUSH` and `POP`,
the second of every other opcode. -/
def carrier (instruction : Instruction) : Operand :=
  match instruction.opcode with
  | .push | .pop => instruction.operand1
  | _ => instruction.operand2

/-- The immediate read as the displacement of an indirect carrier, which is an
index of 16 bits. -/
def carrierIndex? (instruction : Instruction) : Option NaturalIndex :=
  instruction.immediate?.map fun immediate => NaturalIndex.decode .word immediate.toUInt64

end Instruction

end RegisterVM
