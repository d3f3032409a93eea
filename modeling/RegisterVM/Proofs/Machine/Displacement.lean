import RegisterVM.NaturalIndex
import RegisterVM.Proofs.Machine.Contents

/-!
# Where an index leads

An index is taken apart by shifts and masks. On numbers, each of its fields is a remainder
of a quotient by powers of two (`NaturalIndex.toNat_natural`, `toNat_constant`), so that
the two fields of units, wherever the border between them lies, make up all bits below
the field that tells the border. Their units are too few for the sum to wrap
(`NaturalIndex.toInt_offset`), and an index with the other sign leads back
(`NaturalIndex.apply_flip`).
-/

namespace RegisterVM

/-! ## Fields of a number -/

/-- A field of a word is moved down and cut. -/
theorem Word.toNat_field {start : Nat} (inside : start < 64) (count : Nat) (value : UInt64) :
    (lowBits count (value >>> UInt64.ofNat start)).toNat = value.toNat / 2 ^ start % 2 ^ count := by
  rw [toNat_lowBits, UInt64.toNat_shiftRight, UInt64.toNat_ofNat', Nat.mod_eq_of_lt (a := start)
    (by omega), Nat.mod_eq_of_lt inside, Nat.shiftRight_eq_div_pow]

/-- A word below the sign of a word is the same with a sign. -/
theorem Word.toInt_toInt64_of_lt {word : UInt64} (low : word.toNat < 2 ^ 63) :
    word.toInt64.toInt = word.toNat := by
  rw [← Int64.toInt_toBitVec, UInt64.toBitVec_toInt64, BitVec.toInt_eq_toNat_of_lt]
  · rfl
  · show 2 * word.toNat < 2 ^ 64
    omega

/-- A field that ends below a place is the same in two numbers that agree below it. -/
theorem field_congr {number other start count room : Nat} (inside : start + count ≤ room)
    (same : number % 2 ^ room = other % 2 ^ room) :
    number / 2 ^ start % 2 ^ count = other / 2 ^ start % 2 ^ count := by
  have cut (value : Nat) :
      value / 2 ^ start % 2 ^ count = value % 2 ^ room % 2 ^ (start + count) / 2 ^ start := by
    rw [Nat.mod_mod_of_dvd _ (Nat.pow_dvd_pow 2 inside), Nat.pow_add, Nat.mod_mul_right_div_self]
  rw [cut number, cut other, same]

/-- Turning a bit over leaves what is below it. -/
theorem xor_two_pow_mod {place room : Nat} (below : room ≤ place) (number : Nat) :
    (number ^^^ 2 ^ place) % 2 ^ room = number % 2 ^ room := by
  rw [Nat.xor_mod_two_pow, Nat.mod_eq_zero_of_dvd (Nat.pow_dvd_pow 2 below), Nat.xor_zero]

namespace Width

theorem four_lt_bits (width : Width) : 4 < width.bits := by
  have some := width.bytes_pos
  unfold bits
  omega

/-- Cutting a word to the width leaves its fields there. -/
theorem truncate_field {width : Width} {start count : Nat} (inside : start + count ≤ width.bits)
    (value : UInt64) :
    (width.truncate value).toNat / 2 ^ start % 2 ^ count
      = value.toNat / 2 ^ start % 2 ^ count := by
  refine field_congr inside ?_
  rw [width.toNat_truncate, Nat.mod_mod]

end Width

namespace NaturalIndex

/-! ## Taking an index apart -/

/-- The place below which the bits of an index are natural units: as many as its field `w` asks for,
and at most those below that field. The constant units begin there. -/
def border (width : Width) (number : Nat) : Nat :=
  min (number / 2 ^ (width.bits - 4) % 2 ^ 3 * width.bits / 8) (width.bits - 4)

theorem border_le (width : Width) (number : Nat) : border width number ≤ width.bits - 4 :=
  Nat.min_le_right _ _

theorem naturalBits_truncate (width : Width) (raw : UInt64) :
    naturalBits width (width.truncate raw) = border width raw.toNat := by
  have least := width.four_lt_bits
  have most := width.bits_le
  rw [naturalBits, border, Word.toNat_field (by omega), Width.truncate_field (by omega)]

theorem toNat_natural (width : Width) (raw : UInt64) :
    (decode width raw).natural.toNat = raw.toNat % 2 ^ border width raw.toNat := by
  have inside : border width raw.toNat ≤ width.bits :=
    (border_le width raw.toNat).trans (Nat.sub_le _ _)
  simp only [decode, naturalBits_truncate]
  rw [Word.toNat_lowBits, width.toNat_truncate, Nat.mod_mod_of_dvd _ (Nat.pow_dvd_pow 2 inside)]

theorem toNat_constant (width : Width) (raw : UInt64) :
    (decode width raw).constant.toNat
      = raw.toNat / 2 ^ border width raw.toNat
        % 2 ^ (width.bits - 4 - border width raw.toNat) := by
  have inside := border_le width raw.toNat
  have most := width.bits_le
  simp only [decode, naturalBits_truncate]
  rw [Word.toNat_field (by omega), Width.truncate_field (by omega)]

theorem natural_lt (width : Width) (raw : UInt64) :
    (decode width raw).natural.toNat < 2 ^ border width raw.toNat := by
  rw [toNat_natural]
  exact Nat.mod_lt _ (Nat.two_pow_pos _)

theorem constant_lt (width : Width) (raw : UInt64) :
    (decode width raw).constant.toNat < 2 ^ (width.bits - 4 - border width raw.toNat) := by
  rw [toNat_constant]
  exact Nat.mod_lt _ (Nat.two_pow_pos _)

theorem negative_eq_testBit (width : Width) (raw : UInt64) :
    (decode width raw).negative = raw.toNat.testBit (width.bits - 1) := by
  have some := width.bits_pos
  have most := width.bits_le
  have sign : (Word.lowBits 1 (width.truncate raw >>> UInt64.ofNat (width.bits - 1))).toNat
      = raw.toNat / 2 ^ (width.bits - 1) % 2 ^ 1 := by
    rw [Word.toNat_field (by omega), Width.truncate_field (by omega)]
  rw [Nat.testBit_eq_decide_div_mod_eq, Bool.eq_iff_iff, decide_eq_true_iff]
  simp only [decode, beq_iff_eq]
  rw [← UInt64.toNat_inj, sign]
  rfl

/-- The two fields of units make up all bits below the field that tells their border. -/
theorem natural_add_constant (width : Width) (raw : UInt64) :
    (decode width raw).natural.toNat
        + (decode width raw).constant.toNat * 2 ^ border width raw.toNat
      = raw.toNat % 2 ^ (width.bits - 4) := by
  have split : 2 ^ (width.bits - 4)
      = 2 ^ border width raw.toNat * 2 ^ (width.bits - 4 - border width raw.toNat) := by
    rw [← Nat.pow_add, Nat.add_sub_cancel' (border_le width raw.toNat)]
  rw [toNat_natural, toNat_constant, split, Nat.mod_mul, Nat.mul_comm]

/-! ## The displacement -/

/-- An index has fewer units than would reach half the room of its width. -/
theorem units_lt (width : Width) (raw : UInt64) :
    (decode width raw).constant.toNat + 8 * (decode width raw).natural.toNat
      < 2 ^ (width.bits - 1) := by
  have together := natural_add_constant width raw
  have room : 2 ^ (width.bits - 1) = 8 * 2 ^ (width.bits - 4) := by
    have least := width.four_lt_bits
    rw [show width.bits - 1 = 3 + (width.bits - 4) by omega, Nat.pow_add]
  have below : raw.toNat % 2 ^ (width.bits - 4) < 2 ^ (width.bits - 4) :=
    Nat.mod_lt _ (Nat.two_pow_pos _)
  -- A constant unit is worth at most as much as the place that it stands at.
  have worth := Nat.le_mul_of_pos_right (decode width raw).constant.toNat
    (Nat.two_pow_pos (border width raw.toNat))
  omega

/-- Where the units do not reach the sign of a word, no sum, product or change of sign wraps. -/
theorem toInt_offset {index : NaturalIndex}
    (fits : index.constant.toNat + 8 * index.natural.toNat < 2 ^ 63) :
    index.offset.toInt
      = if index.negative then -(index.constant.toNat + 8 * index.natural.toNat : Int)
        else index.constant.toNat + 8 * index.natural.toNat := by
  have sum : (index.constant + index.natural * unitBytes).toNat
      = index.constant.toNat + 8 * index.natural.toNat := by
    rw [UInt64.toNat_add, UInt64.toNat_mul, show unitBytes.toNat = 8 from rfl]
    omega
  have magnitude : (index.constant + index.natural * unitBytes).toInt64.toInt
      = index.constant.toNat + 8 * index.natural.toNat := by
    rw [Word.toInt_toInt64_of_lt (by omega), sum]
    push_cast
    rfl
  unfold offset
  cases index.negative with
  | false => exact magnitude
  | true =>
      show (-(index.constant + index.natural * unitBytes).toInt64).toInt = -_
      rw [Int64.toInt_neg, magnitude, Int.bmod_eq_of_le (by omega) (by omega)]

/-! ## The way back -/

/-- The bit of the sign, and no other. -/
def signBit (width : Width) : UInt64 :=
  1 <<< UInt64.ofNat (width.bits - 1)

theorem toNat_flip (width : Width) (raw : UInt64) :
    (raw ^^^ signBit width).toNat = raw.toNat ^^^ 2 ^ (width.bits - 1) := by
  have some := width.bits_pos
  have most := width.bits_le
  rw [UInt64.toNat_xor, signBit, Word.toNat_one_shiftLeft (by omega)]

/-- With its sign bit turned over, an index has the other sign and the same units. -/
theorem decode_flip (width : Width) (raw : UInt64) :
    decode width (raw ^^^ signBit width)
      = { decode width raw with negative := !(decode width raw).negative } := by
  have least := width.four_lt_bits
  have below : (raw ^^^ signBit width).toNat % 2 ^ (width.bits - 1)
      = raw.toNat % 2 ^ (width.bits - 1) := by
    rw [toNat_flip, xor_two_pow_mod (Nat.le_refl _)]
  have sameBorder : border width (raw ^^^ signBit width).toNat = border width raw.toNat := by
    unfold border
    rw [field_congr (by omega) below]
  have inside := border_le width raw.toNat
  have natural : (decode width (raw ^^^ signBit width)).natural = (decode width raw).natural := by
    apply UInt64.toNat.inj
    rw [toNat_natural, toNat_natural, sameBorder, toNat_flip, xor_two_pow_mod (by omega)]
  have constant : (decode width (raw ^^^ signBit width)).constant
      = (decode width raw).constant := by
    apply UInt64.toNat.inj
    rw [toNat_constant, toNat_constant, sameBorder, field_congr (by omega) below]
  have negative : (decode width (raw ^^^ signBit width)).negative
      = !(decode width raw).negative := by
    rw [negative_eq_testBit, negative_eq_testBit, toNat_flip, Nat.testBit_xor,
      Nat.testBit_two_pow_self, Bool.xor_true]
  calc decode width (raw ^^^ signBit width)
    _ = ⟨(decode width (raw ^^^ signBit width)).negative,
          (decode width (raw ^^^ signBit width)).natural,
          (decode width (raw ^^^ signBit width)).constant⟩ := rfl
    _ = _ := by rw [negative, natural, constant]

theorem offset_flip (width : Width) (raw : UInt64) :
    (decode width (raw ^^^ signBit width)).offset = -(decode width raw).offset := by
  rw [decode_flip]
  unfold offset
  cases (decode width raw).negative with
  | false => rfl
  | true => exact Int64.neg_neg.symm

/-- An index and the one with the other sign lead there and back. -/
theorem apply_flip (width : Width) (raw base : UInt64) :
    (decode width (raw ^^^ signBit width)).apply ((decode width raw).apply base) = base
      ∧ (decode width raw).apply ((decode width (raw ^^^ signBit width)).apply base) = base := by
  unfold apply
  rw [offset_flip, Int64.toUInt64_neg, ← UInt64.sub_eq_add_neg, ← UInt64.sub_eq_add_neg]
  exact ⟨UInt64.add_sub_cancel _ _, UInt64.sub_add_cancel _ _⟩

end NaturalIndex

/-- **Indexes lose nothing.** An index of any width is split at the border that its field `w` tells,
so that its units make up all bits below that field. It stands for the number of bytes of these
units, with the sign of its highest bit; this is less than half the room of the width, and nothing
wraps. It leads from an address to the one that many bytes on, around the address space, and with
its highest bit turned over it leads back. -/
theorem NaturalIndex.decode_displaces (width : Width) (raw : UInt64) :
    let bits := width.bits
    let w := raw.toNat / 2 ^ (bits - 4) % 2 ^ 3
    let k := min (w * bits / 8) (bits - 4)
    let index := decode width raw
    let units : Int := index.constant.toNat + 8 * index.natural.toNat
    let back := decode width (raw ^^^ 1 <<< UInt64.ofNat (bits - 1))
    index.natural.toNat < 2 ^ k
      ∧ index.constant.toNat < 2 ^ (bits - 4 - k)
      ∧ index.natural.toNat + index.constant.toNat * 2 ^ k = raw.toNat % 2 ^ (bits - 4)
      ∧ index.offset.toInt = (if raw.toNat.testBit (bits - 1) then -units else units)
      ∧ index.offset.toInt.natAbs < 2 ^ (bits - 1)
      ∧ (∀ base : UInt64,
        ((index.apply base).toNat : Int) = (base.toNat + index.offset.toInt) % 2 ^ 64
          ∧ back.apply (index.apply base) = base
          ∧ index.apply (back.apply base) = base) := by
  intro bits w k index units back
  have few : index.constant.toNat + 8 * index.natural.toNat < 2 ^ (bits - 1) := units_lt width raw
  have room : 2 ^ (bits - 1) ≤ 2 ^ 63 :=
    Nat.pow_le_pow_right (by decide) (Nat.sub_le_sub_right width.bits_le 1)
  have offset : index.offset.toInt = if raw.toNat.testBit (bits - 1) then -units else units := by
    rw [toInt_offset (Nat.lt_of_lt_of_le few room), negative_eq_testBit]
  refine ⟨natural_lt width raw, constant_lt width raw, natural_add_constant width raw, offset,
    ?_, ?_⟩
  · rw [offset]
    split
    next => omega
    next => omega
  · intro base
    exact ⟨toNat_displace (some index) base, apply_flip width raw base⟩

end RegisterVM
