import RegisterVM.Text.Numeral
import RegisterVM.Width

/-!
# Natural indexes

The displacements that indirect operands carry. An index of `B` bits is laid
out, from the top bit down, as

    sign (1) | w (3) | constant units | natural units (w * B / 8 bits)

and stands for the byte displacement `±(constant + 8 * natural)`. Counting part
of an offset in machine words keeps bytecode independent of their size.
-/

namespace RegisterVM

/-- An index split into its parts. -/
structure NaturalIndex where
  negative : Bool
  natural : UInt64
  constant : UInt64
  deriving DecidableEq

namespace NaturalIndex

/-- The bytes of one natural unit. -/
def unitBytes : UInt64 := 8

/-- How many bits of an index of `width` hold natural units. The field `w` may
ask for more than the bits below it; then there are no constant units. -/
def naturalBits (width : Width) (raw : UInt64) : Nat :=
  let w := Word.lowBits 3 (raw >>> UInt64.ofNat (width.bits - 4))
  min (w.toNat * width.bits / 8) (width.bits - 4)

/-- Splits the low bits of `raw` that make up an index of `width`. -/
def decode (width : Width) (raw : UInt64) : NaturalIndex :=
  let raw := width.truncate raw
  let naturalBits := naturalBits width raw
  { negative := Word.lowBits 1 (raw >>> UInt64.ofNat (width.bits - 1)) == 1
    natural := Word.lowBits naturalBits raw
    constant := Word.lowBits (width.bits - 4 - naturalBits) (raw >>> UInt64.ofNat naturalBits) }

/-- The signed byte displacement, wrapping in 64 bits. -/
def offset (index : NaturalIndex) : Int64 :=
  let magnitude := (index.constant + index.natural * unitBytes).toInt64
  if index.negative then -magnitude else magnitude

/-- The address `offset` bytes from `base`, wrapping around the address
space. -/
def apply (index : NaturalIndex) (base : UInt64) : UInt64 :=
  base + index.offset.toUInt64

/-- The index as written behind an operand: `(+natural,+constant)`, or with both
signs negative. -/
def text (index : NaturalIndex) : List Char :=
  let sign := if index.negative then '-' else '+'
  '(' :: sign :: Numeral.decimal index.natural.toNat
    ++ ',' :: sign :: Numeral.decimal index.constant.toNat ++ [')']

/-- Of a word only the bits that the width has room for make up an index. -/
theorem decode_congr {width : Width} {raw other : UInt64}
    (same : width.truncate raw = width.truncate other) : decode width raw = decode width other := by
  simp only [decode, same]

end NaturalIndex

/-- Displaces `base` by `index`, if there is one. -/
def displace (index : Option NaturalIndex) (base : UInt64) : UInt64 :=
  match index with
  | none => base
  | some index => index.apply base

end RegisterVM
