import RegisterVM.Proofs.Machine.Faults
import RegisterVM.Proofs.Word.Congruence
import RegisterVM.Proofs.Word.SignExtension

/-!
# Arithmetic at a width

The operations work on whole words and narrow what they come to. `UnaryOp.exact` and
`BinaryOp.exact` say on integers what each of them stands for at a number of bits:
the sums and products as they are, the signed divisions on the operands in two's
complement, the others on the operands as they come. The main result is
`eval_computes_exact`: at every width, what an operation gives is this integer,
reduced to the room that there is.
-/

namespace RegisterVM

/-! ## What the operations stand for -/

/-- What a number of so many bits stands for in two's complement. -/
def twosComplement (bits number : Nat) : Int :=
  if number < 2 ^ (bits - 1) then number else number - 2 ^ bits

/-- The integer that an operation on one number of so many bits stands for. -/
def UnaryOp.exact (op : UnaryOp) (bits number : Nat) : Int :=
  match op with
  | not => 2 ^ bits - 1 - number
  | neg => -number

/-- The integer that an operation on two numbers of so many bits stands for. A signed
quotient is rounded toward zero, and its remainder has the sign of the dividend. -/
def BinaryOp.exact (op : BinaryOp) (bits left right : Nat) : Int :=
  match op with
  | add => left + right
  | sub => left - right
  | mul | mulu => left * right
  | div => (twosComplement bits left).tdiv (twosComplement bits right)
  | divu => (left / right : Nat)
  | mod => (twosComplement bits left).tmod (twosComplement bits right)
  | modu => (left % right : Nat)
  | and => (left &&& right : Nat)
  | or => (left ||| right : Nat)
  | xor => (left ^^^ right : Nat)
  | shl => left * 2 ^ (right % bits)
  | shr => (left / 2 ^ (right % bits) : Nat)

/-! ## Two's complement -/

/-- What stands for a number in two's complement is the number up to the room. -/
theorem twosComplement_modEq (bits number : Nat) :
    twosComplement bits number ≡ number [ZMOD 2 ^ bits] := by
  unfold twosComplement
  split
  next => rfl
  next => exact Int.sub_emod_right _ _

namespace Width

/-- The room of a width, in halves. -/
theorem room_eq (width : Width) : 2 ^ width.bits = 2 * 2 ^ (width.bits - 1) := by
  rw [← Nat.pow_succ', Nat.succ_eq_add_one, Nat.sub_add_cancel width.bits_pos]

theorem room_eq_int (width : Width) :
    (2 : Int) ^ width.bits = 2 * (2 ^ (width.bits - 1) : Nat) := by
  exact_mod_cast width.room_eq

theorem toInt_signExtend_of_lt {width : Width} {word : UInt64}
    (fits : word.toNat < 2 ^ width.bits) :
    (width.signExtend word).toInt = twosComplement width.bits word.toNat := by
  rw [toInt_signExtend, twosComplement, width.room_eq_int, width.room_eq]
  rw [width.room_eq] at fits
  generalize 2 ^ (width.bits - 1) = half at fits
  split
  next low => exact Int.bmod_eq_of_le (by omega) (by omega)
  next high =>
    rw [Int.bmod_eq_iff (by omega)]
    exact ⟨by omega, by omega, -1, by push_cast; ring⟩

end Width

/-! ## What the operations come to -/

section

variable {width : Width} {left right : UInt64}

theorem UnaryOp.toNat_eval (op : UnaryOp) (width : Width) (word : UInt64) :
    ((op.eval width word).toNat : Int) = op.exact width.bits word.toNat % 2 ^ width.bits := by
  cases op with
  | not =>
      have turned : ((width.truncate (~~~word)).toNat : Int) = (-1 - word.toNat) % 2 ^ width.bits :=
        Width.toNat_truncate_of_word (Word.toNat_not_modEq word)
      show ((width.truncate (~~~word)).toNat : Int) = (2 ^ width.bits - 1 - word.toNat) % _
      rw [turned, sub_sub, sub_eq_add_neg (2 ^ width.bits : Int), Int.add_emod_left, neg_add']
  | neg => exact Width.toNat_truncate_of_word (Word.toNat_neg_modEq word)

/-- The count of a shift is the operand modulo the bits, which no word cuts again. -/
theorem toNat_shiftCount (width : Width) (right : UInt64) :
    (right % UInt64.ofNat width.bits).toNat % 64 = right.toNat % width.bits := by
  have bits : width.bits ≤ 64 := width.bits_le
  have inside : right.toNat % width.bits < width.bits := Nat.mod_lt _ width.bits_pos
  rw [UInt64.toNat_mod, UInt64.toNat_ofNat', Nat.mod_eq_of_lt (a := width.bits) (by omega),
    Nat.mod_eq_of_lt (by omega)]

theorem BinaryOp.toNat_eval (op : BinaryOp) (left_lt : left.toNat < 2 ^ width.bits)
    (right_lt : right.toNat < 2 ^ width.bits) (divisor : op.divides = true → right ≠ 0) :
    ∃ result, op.eval width left right = .ok result
      ∧ (result.toNat : Int)
        = op.exact width.bits left.toNat right.toNat % 2 ^ width.bits := by
  have signedLeft := Width.toInt_signExtend_of_lt left_lt
  have signedRight := Width.toInt_signExtend_of_lt right_lt
  cases op with
  | add =>
      refine ⟨_, rfl, Width.toNat_truncate_of_word ?_⟩
      have sum := Word.modEq_of_toNat_eq (UInt64.toNat_add left right)
      rwa [Nat.cast_add] at sum
  | sub => exact ⟨_, rfl, Width.toNat_truncate_of_word (Word.toNat_sub_modEq left right)⟩
  | mul =>
      -- The readings in two's complement are the operands only up to the room of the width.
      refine ⟨_, rfl, Width.toNat_truncate_of_modEq ?_⟩
      have product := (Word.toNat_toUInt64_modEq _).trans
        (Word.toInt_mul_modEq (width.signExtend left) (width.signExtend right))
      rw [signedLeft, signedRight] at product
      exact (product.of_dvd width.room_dvd).trans
        ((twosComplement_modEq _ _).mul (twosComplement_modEq _ _))
  | mulu =>
      refine ⟨_, rfl, Width.toNat_truncate_of_word ?_⟩
      have product := Word.modEq_of_toNat_eq (UInt64.toNat_mul left right)
      rwa [Nat.cast_mul] at product
  | div =>
      refine ⟨_, if_neg (divisor rfl), Width.toNat_truncate_of_word ?_⟩
      have quotient := (Word.toNat_toUInt64_modEq _).trans
        (Word.toInt_div_modEq (width.signExtend left) (width.signExtend right))
      rwa [signedLeft, signedRight] at quotient
  | mod =>
      refine ⟨_, if_neg (divisor rfl), Width.toNat_truncate_of_word ?_⟩
      have remainder := Word.toNat_toUInt64_modEq (width.signExtend left % width.signExtend right)
      rwa [Int64.toInt_mod, signedLeft, signedRight] at remainder
  | divu =>
      refine ⟨_, if_neg (divisor rfl), Width.toNat_truncate_of_word ?_⟩
      exact Word.modEq_of_eq (UInt64.toNat_div left right)
  | modu =>
      refine ⟨_, if_neg (divisor rfl), Width.toNat_truncate_of_word ?_⟩
      exact Word.modEq_of_eq (UInt64.toNat_mod left right)
  | and =>
      refine ⟨_, rfl, Width.toNat_truncate_of_word ?_⟩
      exact Word.modEq_of_eq (UInt64.toNat_and left right)
  | or =>
      refine ⟨_, rfl, Width.toNat_truncate_of_word ?_⟩
      exact Word.modEq_of_eq (UInt64.toNat_or left right)
  | xor =>
      refine ⟨_, rfl, Width.toNat_truncate_of_word ?_⟩
      exact Word.modEq_of_eq (UInt64.toNat_xor left right)
  | shl =>
      refine ⟨_, rfl, Width.toNat_truncate_of_word ?_⟩
      have moved := Word.modEq_of_toNat_eq
        (UInt64.toNat_shiftLeft left (right % UInt64.ofNat width.bits))
      rw [toNat_shiftCount, Nat.shiftLeft_eq] at moved
      push_cast at moved
      exact moved
  | shr =>
      refine ⟨_, rfl, Width.toNat_truncate_of_word ?_⟩
      have moved := UInt64.toNat_shiftRight left (right % UInt64.ofNat width.bits)
      rw [toNat_shiftCount, Nat.shiftRight_eq_div_pow] at moved
      exact Word.modEq_of_eq moved

/-- The least number of a width, divided by the one that stands for `-1`, comes round to
itself and leaves nothing. -/
theorem BinaryOp.eval_least_minusOne (least : left.toNat = 2 ^ (width.bits - 1))
    (minusOne : right.toNat = 2 ^ width.bits - 1) :
    div.eval width left right = .ok left ∧ mod.eval width left right = .ok 0 := by
  have room := width.room_eq
  have half_pos : 0 < 2 ^ (width.bits - 1) := Nat.two_pow_pos _
  have left_lt : left.toNat < 2 ^ width.bits := by omega
  have right_lt : right.toNat < 2 ^ width.bits := by omega
  have nonzero : right ≠ 0 := by
    rintro rfl
    rw [UInt64.toNat_zero] at minusOne
    omega
  have signedLeft : twosComplement width.bits left.toNat = -(2 ^ (width.bits - 1) : Nat) := by
    rw [twosComplement, if_neg (by omega), width.room_eq_int]
    omega
  have signedRight : twosComplement width.bits right.toNat = -1 := by
    rw [twosComplement, if_neg (by omega), width.room_eq_int]
    omega
  obtain ⟨quotient, divided, same⟩ := div.toNat_eval left_lt right_lt fun _ => nonzero
  obtain ⟨rest, remained, none⟩ := mod.toNat_eval left_lt right_lt fun _ => nonzero
  rw [exact, signedLeft, signedRight, Int.neg_tdiv_neg, Int.tdiv_one] at same
  rw [exact, signedLeft, signedRight, Int.tmod_neg, Int.tmod_one, Int.zero_emod] at none
  refine ⟨divided.trans (congrArg _ (UInt64.toNat.inj ?_)),
    remained.trans (congrArg _ (UInt64.toNat.inj ?_))⟩
  · rw [← least, Int.emod_eq_of_lt (Int.natCast_nonneg _) (by exact_mod_cast left_lt)] at same
    exact_mod_cast same
  · exact_mod_cast none

end

/-- **Arithmetic at a width.** At every width, on operands that it has room for, an operation comes
to the integer that it stands for, reduced to the room, although it works on whole words. Only the
divisions refuse their operands, and only a divisor of zero. The signed and the unsigned product
are the same, and the least number divided by `-1` comes round to itself. -/
theorem eval_computes_exact (width : Width) (left right : UInt64)
    (left_lt : left.toNat < 2 ^ width.bits) (right_lt : right.toNat < 2 ^ width.bits) :
    (∀ op : UnaryOp, ((op.eval width right).toNat : Int)
      = op.exact width.bits right.toNat % 2 ^ width.bits)
    ∧ (∀ op : BinaryOp, (op.divides = true → right ≠ 0) →
      ∃ result, op.eval width left right = .ok result
        ∧ (result.toNat : Int)
          = op.exact width.bits left.toNat right.toNat % 2 ^ width.bits)
    ∧ (∀ op : BinaryOp, op.divides = true → right = 0 →
      op.eval width left right = .error .divisionByZero)
    ∧ BinaryOp.mul.eval width left right = BinaryOp.mulu.eval width left right
    ∧ (left.toNat = 2 ^ (width.bits - 1) → right.toNat = 2 ^ width.bits - 1 →
      BinaryOp.div.eval width left right = .ok left
        ∧ BinaryOp.mod.eval width left right = .ok 0) := by
  refine ⟨?_, ?_, ?_, ?_, ?_⟩
  · intro op
    exact op.toNat_eval width right
  · intro op divisor
    exact op.toNat_eval left_lt right_lt divisor
  · intro op divides zero
    cases op with
    | div | divu | mod | modu => exact if_pos zero
    | _ => contradiction
  · -- Both products stand for the same integer.
    obtain ⟨signed, evaluated, same⟩ :=
      BinaryOp.mul.toNat_eval left_lt right_lt fun divides => absurd divides (by decide)
    obtain ⟨unsigned, evaluatedToo, sameToo⟩ :=
      BinaryOp.mulu.toNat_eval left_lt right_lt fun divides => absurd divides (by decide)
    have equal : signed = unsigned := UInt64.toNat.inj (by exact_mod_cast same.trans sameToo.symm)
    rw [evaluated, evaluatedToo, equal]
  · intro least minusOne
    exact BinaryOp.eval_least_minusOne least minusOne

/-- The least double and the one that stands for `-1`: their quotient wraps, a shift takes the
count `31`, and the complement leaves nothing. -/
theorem eval_computes_exact_least :
    let least : UInt64 := 0x80000000
    let minusOne : UInt64 := 0xffffffff
    least.toNat < 2 ^ Width.double.bits ∧ minusOne.toNat < 2 ^ Width.double.bits
      ∧ BinaryOp.div.eval .double least minusOne = .ok least
      ∧ BinaryOp.mod.eval .double least minusOne = .ok 0
      ∧ BinaryOp.mul.eval .double least minusOne = BinaryOp.mulu.eval .double least minusOne
      ∧ (∃ result, BinaryOp.shr.eval .double least minusOne = .ok result
        ∧ (result.toNat : Int) = 1)
      ∧ ((UnaryOp.not.eval .double minusOne).toNat : Int) = 0
      ∧ BinaryOp.modu.eval .double least 0 = .error .divisionByZero := by
  intro least minusOne
  have least_lt : least.toNat < 2 ^ Width.double.bits := by decide
  have minusOne_lt : minusOne.toNat < 2 ^ Width.double.bits := by decide
  obtain ⟨unary, binary, -, product, wraps⟩ :=
    eval_computes_exact .double least minusOne least_lt minusOne_lt
  obtain ⟨-, -, refused, -⟩ := eval_computes_exact .double least 0 least_lt (by decide)
  obtain ⟨divided, remained⟩ := wraps (by decide) (by decide)
  obtain ⟨result, shifted, one⟩ := binary .shr fun divides => absurd divides (by decide)
  exact ⟨least_lt, minusOne_lt, divided, remained, product,
    ⟨result, shifted, one.trans (by decide)⟩, unary .not, refused .modu (by decide) rfl⟩

end RegisterVM
