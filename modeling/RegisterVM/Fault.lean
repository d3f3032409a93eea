import RegisterVM.Text.Numeral

/-!
# Faults

The causes for which decoding, a memory access, an instruction or a cycle of
the machine can fail, and the message of each. A cause of a later stage wraps
the cause of the stage that it arose in.
-/

namespace RegisterVM

/-- Why a byte string does not start with an instruction. -/
inductive DecodeFault where
  /-- A register field holds a code that names no register. -/
  | invalidOperand (code : UInt8)
  /-- The instruction takes `needed` bytes, of which only `available` are
  there. -/
  | truncated (needed available : Nat)
  deriving DecidableEq

/-- Why a memory access is refused. -/
inductive MemoryFault where
  /-- Not all of the `length` bytes from `address` on lie inside memory. -/
  | outOfBounds (address : UInt64) (length : Nat)
  deriving DecidableEq

/-- Why an instruction cannot be carried out. -/
inductive ExecutionFault where
  | divisionByZero
  | memory (fault : MemoryFault)
  deriving DecidableEq

/-- Why a cycle of the machine fails. -/
inductive MachineFault where
  | decode (fault : DecodeFault)
  | execution (fault : ExecutionFault)
  deriving DecidableEq

/-- The message of a decode fault: the code in hexadecimal, the byte counts in
decimal. -/
def DecodeFault.message : DecodeFault → List Char
  | invalidOperand code => "invalid operand encoding ".toList ++ Numeral.hex code.toNat
  | truncated needed available =>
      "instruction truncated: needs ".toList ++ Numeral.decimal needed ++ " bytes, ".toList
        ++ Numeral.decimal available ++ " available".toList

/-- The message of a memory fault: the length in decimal, the address in
hexadecimal. -/
def MemoryFault.message : MemoryFault → List Char
  | outOfBounds address length =>
      "access of ".toList ++ Numeral.decimal length ++ " bytes at ".toList
        ++ Numeral.hex address.toNat ++ " is outside memory".toList

/-- The message of an execution fault; that of a memory fault is unchanged. -/
def ExecutionFault.message : ExecutionFault → List Char
  | divisionByZero => "division by zero".toList
  | memory fault => fault.message

/-- The message of a machine fault: the stage that failed, then its cause. -/
def MachineFault.message : MachineFault → List Char
  | decode fault => "decode failed: ".toList ++ fault.message
  | execution fault => "execution failed: ".toList ++ fault.message

end RegisterVM
