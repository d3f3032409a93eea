import Mathlib.Algebra.Group.Nat.Defs
import RegisterVM.Width
import RegisterVM.Word.LittleEndian

/-!
# Narrowing is a remainder

A word cut to its low bits, and a number written with so many bytes, are what
they were modulo the power of two, or of 256, that there is room for.
-/

namespace RegisterVM

/-- A one moved up inside the word is a power of two. -/
theorem Word.toNat_one_shiftLeft {count : Nat} (narrow : count < 64) :
    (1 <<< UInt64.ofNat count : UInt64).toNat = 2 ^ count := by
  have : 2 ^ count < 2 ^ 64 := Nat.pow_lt_pow_right (by omega) narrow
  rw [UInt64.toNat_shiftLeft, UInt64.toNat_ofNat', UInt64.toNat_one, Nat.shiftLeft_eq,
    Nat.one_mul, Nat.mod_eq_of_lt (by omega : count < 2 ^ 64), Nat.mod_eq_of_lt narrow,
    Nat.mod_eq_of_lt this]

/-- The mask of `lowBits` is a remainder by a power of two. -/
theorem Word.toNat_lowBits (count : Nat) (value : UInt64) :
    (lowBits count value).toNat = value.toNat % 2 ^ count := by
  unfold lowBits
  split
  next narrow =>
    -- The mask is one less than a power of two that still fits the word.
    have onePow := toNat_one_shiftLeft narrow
    have positive : 0 < 2 ^ count := Nat.two_pow_pos count
    rw [UInt64.toNat_and, UInt64.toNat_sub_of_le _ _ (by
      rw [UInt64.le_iff_toNat_le, onePow]; exact positive), onePow, UInt64.toNat_one,
      Nat.and_two_pow_sub_one_eq_mod]
  next wide =>
    have : 2 ^ 64 ≤ 2 ^ count := Nat.pow_le_pow_right (by omega) (by omega)
    exact (Nat.mod_eq_of_lt (Nat.lt_of_lt_of_le value.toNat_lt this)).symm

theorem Width.toNat_truncate (width : Width) (value : UInt64) :
    (width.truncate value).toNat = value.toNat % 2 ^ width.bits :=
  Word.toNat_lowBits _ _

theorem Width.truncate_eq_iff {width : Width} {word other : UInt64} :
    width.truncate word = width.truncate other
      ↔ word.toNat % 2 ^ width.bits = other.toNat % 2 ^ width.bits := by
  rw [← toNat_truncate, ← toNat_truncate, UInt64.toNat_inj]

/-- A number that the width has room for is not cut. -/
theorem Width.truncate_of_lt {width : Width} {word : UInt64} (fits : word.toNat < 2 ^ width.bits) :
    width.truncate word = word := by
  apply UInt64.toNat.inj
  rw [toNat_truncate, Nat.mod_eq_of_lt fits]

namespace LittleEndian

/-- Writing keeps a number modulo its room. -/
@[simp] theorem decode_encode (count value : Nat) :
    decode (encode count value) = value % 256 ^ count := by
  induction count generalizing value with
  | zero => simp [encode, decode, Nat.mod_one]
  | succ count ih =>
      have power : 256 ^ (count + 1) = 256 * 256 ^ count := by rw [Nat.pow_succ, Nat.mul_comm]
      rw [encode, decode, ih, UInt8.toNat_ofNat', power, Nat.mod_mul]

/-- Only as much of a number is written as there is room for. -/
theorem encode_mod (count value : Nat) :
    encode count (value % 256 ^ count) = encode count value := by
  have written := encode_decode (encode count value)
  rwa [length_encode, decode_encode] at written

theorem decode_lt (bytes : List UInt8) : decode bytes < 256 ^ bytes.length := by
  rw [← encode_decode bytes, decode_encode, length_encode]
  exact Nat.mod_lt _ (Nat.pow_pos (by omega))

/-- A number that fits is taken off the front of a byte string as it was put
there. -/
theorem decodeFront?_encode {count value : Nat} (fits : value < 256 ^ count)
    (rest : List UInt8) :
    decodeFront? count (encode count value ++ rest) = some (value, rest) := by
  have enough : count ≤ (encode count value ++ rest).length := by
    rw [List.length_append, length_encode]
    exact Nat.le_add_right _ _
  rw [decodeFront?, if_pos enough, List.take_left' (length_encode _ _),
    List.drop_left' (length_encode _ _), decode_encode, Nat.mod_eq_of_lt fits]

end LittleEndian

end RegisterVM
