/-!
# Bit fields of 64-bit words

The two ways in which the machine narrows a word: `lowBits` keeps the low bits
as an unsigned number, `signExtend` reads them as two's complement. Both take
the bit count as a parameter, so that operand widths and the fields of a
natural index are cut by the same rule.
-/

namespace RegisterVM.Word

/-- Keeps the low `count` bits of `value`. From 64 bits on that is the whole
word, and no mask is formed. -/
def lowBits (count : Nat) (value : UInt64) : UInt64 :=
  if count < 64 then value &&& ((1 <<< UInt64.ofNat count) - 1) else value

/-- Reads the low `count` bits of `value` as a two's complement number: the
field is moved to the top of the word, and comes down filling with its sign. -/
def signExtend (count : Nat) (value : UInt64) : Int64 :=
  let shift := UInt64.ofNat (64 - count)
  (value <<< shift).toInt64 >>> shift.toInt64

end RegisterVM.Word
