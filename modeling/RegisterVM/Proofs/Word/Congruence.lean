import Mathlib.Data.Int.ModEq
import RegisterVM.Proofs.Word.Remainder

/-!
# Words as integers up to their room

The operations on words wrap, so that a word is what the same operation on integers
gives, up to the room of a word. Narrowing keeps this up to the room of the width,
which goes into that of the word.
-/

namespace RegisterVM

namespace Word

theorem modEq_of_eq {word : UInt64} {number : Nat} (same : word.toNat = number) :
    (word.toNat : Int) ≡ number [ZMOD 2 ^ 64] := by
  rw [same]

/-- A word that wrapped is what it would have been, up to the room of a word. -/
theorem modEq_of_toNat_eq {word : UInt64} {number : Nat}
    (wrapped : word.toNat = number % 2 ^ 64) : (word.toNat : Int) ≡ number [ZMOD 2 ^ 64] := by
  rw [wrapped]
  push_cast
  exact Int.mod_modEq _ _

theorem toNat_toUInt64_modEq (word : Int64) :
    (word.toUInt64.toNat : Int) ≡ word.toInt [ZMOD 2 ^ 64] := by
  rw [← Int64.toInt_toBitVec, BitVec.toInt_eq_toNat_bmod]
  exact Int.bmod_emod.symm

theorem toNat_sub_modEq (left right : UInt64) :
    ((left - right).toNat : Int) ≡ left.toNat - right.toNat [ZMOD 2 ^ 64] := by
  have below : right.toNat ≤ 2 ^ 64 := right.toNat_lt.le
  have wrapped := modEq_of_toNat_eq (UInt64.toNat_sub left right)
  rw [Nat.cast_add, Nat.cast_sub below, sub_add_eq_add_sub, add_sub_assoc] at wrapped
  exact wrapped.trans (Int.add_emod_left _ _)

theorem toNat_neg_modEq (word : UInt64) : ((-word).toNat : Int) ≡ -word.toNat [ZMOD 2 ^ 64] := by
  rw [← UInt64.zero_sub]
  simpa using toNat_sub_modEq 0 word

theorem toNat_not_modEq (word : UInt64) :
    ((~~~word).toNat : Int) ≡ -1 - word.toNat [ZMOD 2 ^ 64] := by
  have below : word.toNat < 2 ^ 64 := word.toNat_lt
  have whole : ((~~~word).toNat : Int) = 2 ^ 64 + (-1 - word.toNat) := by
    rw [UInt64.toNat_not, UInt64.size]
    omega
  rw [whole]
  exact Int.add_emod_left _ _

theorem toInt_mul_modEq (left right : Int64) :
    (left * right).toInt ≡ left.toInt * right.toInt [ZMOD 2 ^ 64] := by
  rw [Int64.toInt_mul]
  exact Int.bmod_emod

theorem toInt_div_modEq (left right : Int64) :
    (left / right).toInt ≡ left.toInt.tdiv right.toInt [ZMOD 2 ^ 64] := by
  rw [Int64.toInt_div]
  exact Int.bmod_emod

end Word

namespace Width

theorem bits_pos (width : Width) : 0 < width.bits := by
  cases width <;> decide

theorem bits_le (width : Width) : width.bits ≤ 64 := by
  cases width <;> decide

/-- The room of a width goes into that of a word. -/
theorem room_dvd (width : Width) : (2 ^ width.bits : Int) ∣ 2 ^ 64 :=
  pow_dvd_pow 2 width.bits_le

/-- A word that is a number up to the room of the width is narrowed to the number,
reduced to that room. -/
theorem toNat_truncate_of_modEq {width : Width} {word : UInt64} {number : Int}
    (same : (word.toNat : Int) ≡ number [ZMOD 2 ^ width.bits]) :
    ((width.truncate word).toNat : Int) = number % 2 ^ width.bits := by
  rw [toNat_truncate]
  push_cast
  exact same

/-- Narrowing keeps of a word what it is up to the room of a word. -/
theorem toNat_truncate_of_word {width : Width} {word : UInt64} {number : Int}
    (same : (word.toNat : Int) ≡ number [ZMOD 2 ^ 64]) :
    ((width.truncate word).toNat : Int) = number % 2 ^ width.bits :=
  toNat_truncate_of_modEq (same.of_dvd width.room_dvd)

end Width

end RegisterVM
