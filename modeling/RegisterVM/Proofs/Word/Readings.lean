import RegisterVM.Machine.Arithmetic
import RegisterVM.Proofs.Word.Congruence
import RegisterVM.Proofs.Word.SignExtension

/-!
# The two readings of a word

A width cuts a word to a number without a sign, or extends it to one with a sign. Both
readings depend on the residue of the word alone, so that either can be taken after the
other, and a word is read as zero by both or by neither (`Width.signExtend_eq_zero_iff`).
A signed division works on the one reading and tests its divisor in the other; this is
why the test is enough.
-/

namespace RegisterVM

namespace Width

variable {width : Width} {value : UInt64}

/-- The signed reading is the word, up to the room of the width. -/
theorem toInt_signExtend_modEq (width : Width) (value : UInt64) :
    (width.signExtend value).toInt ≡ value.toNat [ZMOD 2 ^ width.bits] := by
  have balanced := width.toInt_signExtend value
  rw [balanced]
  exact_mod_cast Int.bmod_emod

/-- Of the integers that the word is up to the room of the width, the signed reading is the one
that lies in the range around zero. -/
theorem eq_toInt_signExtend_iff {number : Int} :
    (-2 ^ (width.bits - 1) ≤ number ∧ number < 2 ^ (width.bits - 1)
      ∧ number ≡ value.toNat [ZMOD 2 ^ width.bits]) ↔ number = (width.signExtend value).toInt := by
  have halves : (2 : Int) ^ width.bits = 2 * 2 ^ (width.bits - 1) := by
    rw [← pow_succ', Nat.sub_add_cancel width.bits_pos]
  rw [width.toInt_signExtend value, eq_comm (a := number), Int.bmod_eq_iff (Nat.two_pow_pos _),
    Int.modEq_comm, Int.modEq_iff_dvd]
  push_cast
  rw [halves]
  constructor
  · rintro ⟨least, most, same⟩
    exact ⟨by omega, by omega, same⟩
  · rintro ⟨least, most, same⟩
    exact ⟨by omega, by omega, same⟩

/-- Words with one residue have one signed reading. -/
theorem signExtend_congr {other : UInt64} (same : width.truncate value = width.truncate other) :
    width.signExtend value = width.signExtend other := by
  apply Int64.toInt_inj.mp
  rw [truncate_eq_iff] at same
  rw [width.toInt_signExtend, width.toInt_signExtend, ← Int.emod_bmod, ← Int.natCast_mod, same,
    Int.natCast_mod, Int.emod_bmod]

theorem truncate_truncate (width : Width) (value : UInt64) :
    width.truncate (width.truncate value) = width.truncate value := by
  rw [truncate_eq_iff, toNat_truncate, Nat.mod_mod]

/-- Cutting a word first does not change what it is read as with a sign. -/
theorem signExtend_truncate (width : Width) (value : UInt64) :
    width.signExtend (width.truncate value) = width.signExtend value :=
  signExtend_congr (width.truncate_truncate value)

/-- Cutting the signed reading, as the word that it is kept in, gives what cutting the word gives. -/
theorem truncate_signExtend (width : Width) (value : UInt64) :
    width.truncate (width.signExtend value).toUInt64 = width.truncate value := by
  have kept : ((width.signExtend value).toUInt64.toNat : Int) ≡ value.toNat
      [ZMOD 2 ^ width.bits] :=
    ((Word.toNat_toUInt64_modEq _).of_dvd width.room_dvd).trans (width.toInt_signExtend_modEq value)
  rw [truncate_eq_iff]
  exact_mod_cast kept

/-- A word is read as zero with a sign exactly if it is without one. -/
theorem signExtend_eq_zero_iff : width.signExtend value = 0 ↔ width.truncate value = 0 := by
  constructor
  · intro zero
    rw [← signExtend_truncate] at zero
    refine eq_zero_of_signExtend_eq_zero ?_ zero
    rw [toNat_truncate]
    exact Nat.mod_lt _ (Nat.two_pow_pos _)
  · intro zero
    rw [← signExtend_truncate, zero]
    cases width <;> rfl

end Width

/-- A signed division is refused exactly if its divisor is read as zero with a sign. -/
theorem BinaryOp.eval_signed_division_iff (width : Width) (left value : UInt64) :
    (div.eval width left (width.truncate value) = .error .divisionByZero
        ↔ width.signExtend value = 0)
      ∧ (mod.eval width left (width.truncate value) = .error .divisionByZero
        ↔ width.signExtend value = 0) := by
  rw [Width.signExtend_eq_zero_iff]
  simp [eval]

/-- **Residues, with and without a sign.** At every width, cutting a word leaves its remainder, and
extending it gives the one integer of its residue that lies in the range around zero. Either
reading can be taken after the other, and zero is zero in both: a signed division, which tests
what its divisor was cut to, is refused exactly if the divisor that it would divide by is zero. -/
theorem Width.readings_exact (width : Width) (value : UInt64) :
    (width.truncate value).toNat = value.toNat % 2 ^ width.bits
    ∧ (∀ number : Int,
      (-2 ^ (width.bits - 1) ≤ number ∧ number < 2 ^ (width.bits - 1)
        ∧ number ≡ value.toNat [ZMOD 2 ^ width.bits])
      ↔ number = (width.signExtend value).toInt)
    ∧ width.signExtend (width.truncate value) = width.signExtend value
    ∧ width.truncate (width.signExtend value).toUInt64 = width.truncate value
    ∧ (width.signExtend value = 0 ↔ width.truncate value = 0)
    ∧ (∀ left,
      (BinaryOp.div.eval width left (width.truncate value) = .error .divisionByZero
        ↔ width.signExtend value = 0)
      ∧ (BinaryOp.mod.eval width left (width.truncate value) = .error .divisionByZero
        ↔ width.signExtend value = 0)) := by
  refine ⟨width.toNat_truncate value, ?_, width.signExtend_truncate value,
    width.truncate_signExtend value, signExtend_eq_zero_iff, ?_⟩
  · intro number
    exact eq_toInt_signExtend_iff
  · intro left
    exact BinaryOp.eval_signed_division_iff width left value

end RegisterVM
