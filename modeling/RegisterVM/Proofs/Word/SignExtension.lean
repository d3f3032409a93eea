import Mathlib.Tactic.Linarith
import Mathlib.Tactic.Ring
import RegisterVM.Proofs.Word.Remainder

/-!
# Sign extension is a balanced remainder

The low bits of a word, read as two's complement, are what the word was modulo
the power of two that there is room for, moved to lie around zero.
-/

namespace RegisterVM

/-- The balanced remainder of a multiple, where there is as many times the
room. -/
theorem bmod_mul_right (value : Int) {half scale : Nat} (half_pos : 0 < half)
    (scale_pos : 0 < scale) :
    (value * scale).bmod (2 * half * scale) = value.bmod (2 * half) * scale := by
  obtain ⟨least, most, turns, same⟩ :=
    (Int.bmod_eq_iff (a := value) (b := 2 * half) (c := value.bmod (2 * half)) (by omega)).mp rfl
  generalize value.bmod (2 * half) = balanced at *
  have low : -(half : Int) * scale ≤ balanced * scale :=
    mul_le_mul_of_nonneg_right (by omega) (Int.natCast_nonneg _)
  have high : balanced * scale < (half : Int) * scale :=
    mul_lt_mul_of_pos_right (by omega) (by exact_mod_cast scale_pos)
  have room : ((2 * half * scale : Nat) : Int) = 2 * (half * scale) := by
    push_cast
    ring
  have middle : (2 * (half * scale) : Int) / 2 = half * scale := by omega
  rw [Int.bmod_eq_iff (Nat.mul_pos (by omega) scale_pos), room]
  refine ⟨by linarith, by omega, turns, ?_⟩
  rw [← sub_mul, same]
  push_cast
  ring

theorem Word.toInt_signExtend {count : Nat} (value : UInt64) (positive : 0 < count)
    (inside : count ≤ 64) :
    (signExtend count value).toInt = (value.toNat : Int).bmod (2 ^ count) := by
  obtain ⟨below, rfl⟩ : ∃ below, count = below + 1 := ⟨count - 1, by omega⟩
  generalize room : 64 - (below + 1) = shift
  have short : shift < 64 := by omega
  have up : ∀ shift < 64, (BitVec.ofNat 64 shift % 64).toNat = shift := by decide
  have down : ∀ shift < 64, ((BitVec.ofNat 64 shift).smod 64).toNat = shift := by decide
  have word : (UInt64.ofNat shift).toBitVec = BitVec.ofNat 64 shift := rfl
  have whole : 2 ^ 64 = 2 * 2 ^ below * 2 ^ shift := by
    rw [← Nat.pow_succ', ← Nat.pow_add, show below + 1 + shift = 64 by omega]
  have moved : (signExtend (below + 1) value).toInt
      = ((value.toNat : Int) * (2 ^ shift : Nat)).bmod (2 ^ 64) / (2 ^ shift : Nat) := by
    rw [signExtend, room, ← Int64.toInt_toBitVec, Int64.toBitVec_shiftRight,
      UInt64.toBitVec_toInt64, UInt64.toBitVec_shiftLeft, UInt64.toBitVec_toInt64, word,
      BitVec.sshiftRight_eq', BitVec.toInt_sshiftRight, BitVec.shiftLeft_eq',
      BitVec.toInt_shiftLeft, up shift short, down shift short, Int.shiftRight_eq_div_pow,
      Nat.shiftLeft_eq, Int.natCast_mul]
    rfl
  rw [moved, whole, bmod_mul_right _ (Nat.two_pow_pos _) (Nat.two_pow_pos _),
    Int.mul_ediv_cancel _ (by positivity), Nat.pow_succ']

theorem Width.toInt_signExtend (width : Width) (value : UInt64) :
    (width.signExtend value).toInt = (value.toNat : Int).bmod (2 ^ width.bits) := by
  have least := width.bytes_pos
  have most := width.bytes_le
  refine Word.toInt_signExtend value ?_ ?_
  · unfold bits
    omega
  · unfold bits
    omega

/-- Of what a width has room for, only zero is read as zero. -/
theorem Width.eq_zero_of_signExtend_eq_zero {width : Width} {value : UInt64}
    (fits : value.toNat < 2 ^ width.bits) (zero : width.signExtend value = 0) : value = 0 := by
  have balanced := width.toInt_signExtend value
  rw [zero, show (0 : Int64).toInt = 0 from rfl, eq_comm, Int.bmod_eq_iff (Nat.two_pow_pos _),
    Int.zero_sub, Int.dvd_neg, Int.natCast_dvd_natCast] at balanced
  exact UInt64.toNat.inj (Nat.eq_zero_of_dvd_of_lt balanced.2.2 fits)

end RegisterVM
