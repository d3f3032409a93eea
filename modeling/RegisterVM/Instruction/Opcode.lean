import RegisterVM.Width

/-!
# Opcodes

The operations of the machine by class, with their six-bit codes and their
mnemonics. `Opcode.ofCode` reads a code back: `ofCode_code` says that it finds
every opcode under its own code, and a code that names no opcode is a `NOP`.
-/

namespace RegisterVM

/-- Operations on the source operand alone. -/
inductive UnaryOp where
  | not
  | neg
  deriving DecidableEq

/-- Operations on both operands. A trailing `u` marks the unsigned form. -/
inductive BinaryOp where
  | add
  | sub
  | mul
  | mulu
  | div
  | divu
  | mod
  | modu
  | and
  | or
  | xor
  | shl
  | shr
  deriving DecidableEq

/-- The moves, named by the width of the value moved and then by the width of
the indexes that may trail the header. -/
inductive MoveForm where
  | bw
  | ww
  | dw
  | qw
  | bd
  | wd
  | dd
  | qd
  | qq
  deriving DecidableEq

/-- The operations of the machine. -/
inductive Opcode where
  | nop
  | ret
  | unary (op : UnaryOp)
  | binary (op : BinaryOp)
  | move (form : MoveForm)
  | push
  | pop
  deriving DecidableEq

namespace MoveForm

/-- The width of the value moved. -/
def valueWidth : MoveForm → Width
  | bw | bd => .byte
  | ww | wd => .word
  | dw | dd => .double
  | qw | qd | qq => .quad

/-- The width of each trailing index. -/
def indexWidth : MoveForm → Width
  | bw | ww | dw | qw => .word
  | bd | wd | dd | qd => .double
  | qq => .quad

/-- The code of the move's opcode. -/
def code : MoveForm → UInt8
  | bw => 0x1d
  | ww => 0x1e
  | dw => 0x1f
  | qw => 0x20
  | bd => 0x21
  | wd => 0x22
  | dd => 0x23
  | qd => 0x24
  | qq => 0x28

/-- The mnemonic of the move, which ends in the letters of its two widths. -/
def mnemonic : MoveForm → String
  | bw => "MOVbw"
  | ww => "MOVww"
  | dw => "MOVdw"
  | qw => "MOVqw"
  | bd => "MOVbd"
  | wd => "MOVwd"
  | dd => "MOVdd"
  | qd => "MOVqd"
  | qq => "MOVqq"

end MoveForm

/-- The code of the operation's opcode. -/
def UnaryOp.code : UnaryOp → UInt8
  | not => 0x0a
  | neg => 0x0b

/-- The mnemonic of the operation. -/
def UnaryOp.mnemonic : UnaryOp → String
  | not => "NOT"
  | neg => "NEG"

/-- The code of the operation's opcode. -/
def BinaryOp.code : BinaryOp → UInt8
  | add => 0x0c
  | sub => 0x0d
  | mul => 0x0e
  | mulu => 0x0f
  | div => 0x10
  | divu => 0x11
  | mod => 0x12
  | modu => 0x13
  | and => 0x14
  | or => 0x15
  | xor => 0x16
  | shl => 0x17
  | shr => 0x18

/-- The mnemonic of the operation. -/
def BinaryOp.mnemonic : BinaryOp → String
  | add => "ADD"
  | sub => "SUB"
  | mul => "MUL"
  | mulu => "MULU"
  | div => "DIV"
  | divu => "DIVU"
  | mod => "MOD"
  | modu => "MODU"
  | and => "AND"
  | or => "OR"
  | xor => "XOR"
  | shl => "SHL"
  | shr => "SHR"

namespace Opcode

/-- The six-bit code of the opcode. -/
def code : Opcode → UInt8
  | nop => 0x00
  | ret => 0x04
  | unary op => op.code
  | binary op => op.code
  | move form => form.code
  | push => 0x2b
  | pop => 0x2c

/-- The name of the opcode in a listing. -/
def mnemonic : Opcode → String
  | nop => "NOP"
  | ret => "RET"
  | unary op => op.mnemonic
  | binary op => op.mnemonic
  | move form => form.mnemonic
  | push => "PUSH"
  | pop => "POP"

/-- Every opcode once, by ascending code. -/
def all : List Opcode :=
  [nop, ret, unary .not, unary .neg,
    binary .add, binary .sub, binary .mul, binary .mulu, binary .div, binary .divu,
    binary .mod, binary .modu, binary .and, binary .or, binary .xor, binary .shl, binary .shr,
    move .bw, move .ww, move .dw, move .qw, move .bd, move .wd, move .dd, move .qd, move .qq,
    push, pop]

/-- The bits of a byte that hold an opcode's code. -/
def codeMask : UInt8 := 0x3f

/-- The opcode whose code stands in the low six bits of `raw`. Codes that no
opcode has are reserved, and read as a `NOP`. -/
def ofCode (raw : UInt8) : Opcode :=
  (all.find? (·.code == raw &&& codeMask)).getD nop

/-- The form of a move; there is none for any other opcode. -/
def moveForm? : Opcode → Option MoveForm
  | move form => some form
  | _ => none

theorem moveForm?_eq_some_iff {opcode : Opcode} {form : MoveForm} :
    opcode.moveForm? = some form ↔ opcode = move form := by
  cases opcode <;> simp [moveForm?]

theorem mem_all (opcode : Opcode) : opcode ∈ all := by
  cases opcode with
  | nop => decide
  | ret => decide
  | unary op => cases op <;> decide
  | binary op => cases op <;> decide
  | move form => cases form <;> decide
  | push => decide
  | pop => decide

/-- Every opcode is found under its own code. -/
@[simp] theorem ofCode_code (opcode : Opcode) : ofCode opcode.code = opcode := by
  have found : ∀ opcode ∈ all, ofCode opcode.code = opcode := by decide
  exact found opcode (mem_all opcode)

end Opcode

end RegisterVM
