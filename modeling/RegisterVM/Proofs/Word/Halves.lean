import RegisterVM.Word.LittleEndian

/-!
# Words of two bytes

A word of 16 bits is put together of its low and its high byte. Masks work on
each of them alone, and moving the word down leaves the high one.
-/

namespace RegisterVM

namespace Word

/-- The word of two bytes. -/
def ofHalves (low high : UInt8) : UInt16 :=
  .ofBitVec (high.toBitVec ++ low.toBitVec)

theorem ofHalves_and (low high low' high' : UInt8) :
    ofHalves low high &&& ofHalves low' high' = ofHalves (low &&& low') (high &&& high') := by
  apply UInt16.toBitVec_inj.mp
  exact BitVec.and_append

theorem ofHalves_or (low high low' high' : UInt8) :
    ofHalves low high ||| ofHalves low' high' = ofHalves (low ||| low') (high ||| high') := by
  apply UInt16.toBitVec_inj.mp
  exact BitVec.or_append

theorem toNat_ofHalves (low high : UInt8) :
    (ofHalves low high).toNat = low.toNat + 256 * high.toNat := by
  show (high.toBitVec ++ low.toBitVec).toNat = _
  rw [BitVec.toNat_append, ← Nat.shiftLeft_add_eq_or_of_lt low.toBitVec.isLt, Nat.shiftLeft_eq]
  show high.toNat * 2 ^ 8 + low.toNat = _
  omega

/-- Two bytes spell their word. -/
theorem decode_pair (low high : UInt8) :
    LittleEndian.decode [low, high] = (ofHalves low high).toNat := by
  simp [LittleEndian.decode, toNat_ofHalves]

theorem ofHalves_injective {low high low' high' : UInt8}
    (same : ofHalves low high = ofHalves low' high') : low = low' ∧ high = high' := by
  have sum := congrArg UInt16.toNat same
  have := low.toNat_lt
  have := low'.toNat_lt
  simp only [toNat_ofHalves] at sum
  exact ⟨UInt8.toNat.inj (by omega), UInt8.toNat.inj (by omega)⟩

theorem toUInt8_ofHalves (low high : UInt8) : (ofHalves low high).toUInt8 = low := by
  apply UInt8.toNat.inj
  have := low.toNat_lt
  rw [UInt16.toNat_toUInt8, toNat_ofHalves]
  omega

theorem ofHalves_shiftRight_eight (low high : UInt8) :
    ofHalves low high >>> 8 = high.toUInt16 := by
  apply UInt16.toNat.inj
  have := low.toNat_lt
  rw [UInt16.toNat_shiftRight, toNat_ofHalves, UInt8.toNat_toUInt16]
  show _ >>> 8 = _
  rw [Nat.shiftRight_eq_div_pow]
  omega

theorem ofHalves_shiftRight_twelve (low high : UInt8) :
    ofHalves low high >>> 12 = (high >>> 4).toUInt16 := by
  apply UInt16.toNat.inj
  have := low.toNat_lt
  rw [UInt16.toNat_shiftRight, toNat_ofHalves, UInt8.toNat_toUInt16, UInt8.toNat_shiftRight]
  show _ >>> 12 = _ >>> 4
  rw [Nat.shiftRight_eq_div_pow, Nat.shiftRight_eq_div_pow]
  omega

theorem ofHalves_eq_zero_iff {low high : UInt8} : ofHalves low high = 0 ↔ low = 0 ∧ high = 0 := by
  constructor
  · intro zero
    exact ofHalves_injective (zero.trans (show 0 = ofHalves 0 0 from rfl))
  · rintro ⟨rfl, rfl⟩
    rfl

/-- A mask of the low half finds what it finds in the low byte. -/
theorem ofHalves_and_low (low high mask : UInt8) :
    (ofHalves low high &&& ofHalves mask 0 != 0) = (low &&& mask != 0) := by
  rw [Bool.eq_iff_iff, bne_iff_ne, bne_iff_ne, ofHalves_and, Ne, ofHalves_eq_zero_iff]
  simp

/-- A mask of the high half finds what it finds in the high byte. -/
theorem ofHalves_and_high (low high mask : UInt8) :
    (ofHalves low high &&& ofHalves 0 mask != 0) = (high &&& mask != 0) := by
  rw [Bool.eq_iff_iff, bne_iff_ne, bne_iff_ne, ofHalves_and, Ne, ofHalves_eq_zero_iff]
  simp

end Word

end RegisterVM
