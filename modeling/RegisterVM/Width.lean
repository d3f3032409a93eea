import RegisterVM.Text.Numeral
import RegisterVM.Word.Bits

/-!
# Access and field widths

A width is the size of a memory access, of an operation on registers, or of an
encoded field. It fixes how a 64-bit word is narrowed.
-/

namespace RegisterVM

/-- The four sizes of an access or a field. -/
inductive Width where
  | byte
  | word
  | double
  | quad
  deriving DecidableEq

namespace Width

/-- The number of bytes. -/
def bytes : Width → Nat
  | byte => 1
  | word => 2
  | double => 4
  | quad => 8

/-- The number of bits. -/
def bits (width : Width) : Nat :=
  8 * width.bytes

/-- The width of a generic operation: a quad if it is a 64-bit one, else a
double. -/
def natural (wide : Bool) : Width :=
  if wide then quad else double

/-- Keeps the low bits of `value` that the width has room for. -/
def truncate (width : Width) (value : UInt64) : UInt64 :=
  Word.lowBits width.bits value

/-- Reads the low bits of `value` as a two's complement number of the width. -/
def signExtend (width : Width) (value : UInt64) : Int64 :=
  Word.signExtend width.bits value

/-- The width as written: its bits. -/
def text (width : Width) : List Char :=
  Numeral.decimal width.bits

theorem bytes_pos (width : Width) : 0 < width.bytes := by
  cases width <;> decide

theorem bytes_le (width : Width) : width.bytes ≤ 8 := by
  cases width <;> decide

end Width

end RegisterVM
