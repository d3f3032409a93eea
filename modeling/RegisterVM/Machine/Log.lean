import RegisterVM.Instruction.Text

/-!
# Log records

What the machine reports of its work: each instruction before it is carried
out, and how a run came to its end.
-/

namespace RegisterVM

/-- The levels of log records. -/
inductive LogLevel where
  | trace
  | debug
  deriving DecidableEq

/-- The name of the level at the head of a log line. -/
def LogLevel.name : LogLevel → String
  | trace => "TRACE"
  | debug => "DEBUG"

/-- A record of the log. -/
inductive LogRecord where
  /-- The instruction found at an address, before it is carried out. -/
  | trace (address : UInt64) (instruction : Instruction)
  /-- A run ended at the `RET` at an address. -/
  | halted (address : UInt64) (executed : Nat)
  /-- A run ended at an address where a cycle failed. -/
  | faulted (address : UInt64) (fault : MachineFault)
  /-- A run used up its step limit in front of an address. -/
  | stopped (address : UInt64) (executed : Nat)
  deriving DecidableEq

namespace LogRecord

/-- The level of the record. -/
def level : LogRecord → LogLevel
  | trace .. => .trace
  | _ => .debug

/-- The message of the record. The address of a traced instruction has at least
eight digits. -/
def message : LogRecord → List Char
  | trace address instruction =>
      Numeral.hexPadded 8 address.toNat ++ ':' :: ' ' :: instruction.text
  | halted address executed =>
      "halted at ".toList ++ Numeral.hex address.toNat ++ " after ".toList
        ++ Numeral.decimal executed ++ " instructions".toList
  | faulted address fault =>
      "fault at ".toList ++ Numeral.hex address.toNat ++ ':' :: ' ' :: fault.message
  | stopped address executed =>
      "stopped at ".toList ++ Numeral.hex address.toNat ++ " after the step limit of ".toList
        ++ Numeral.decimal executed

/-- The record as a line of the log. -/
def text (record : LogRecord) : List Char :=
  record.level.name.toList ++ ' ' :: record.message

end LogRecord

instance : ToString LogRecord where
  toString record := String.ofList record.text

end RegisterVM
