import RegisterVM.NaturalIndex
import RegisterVM.Proofs.Word.Remainder

/-!
# Operations with a gap

The machine's definitions are total, and give a shift by too much or a place
outside a table some value. Here are the operations that have no such value:
each comes upon a `Defect` where its result is not called for. `Checked` writes
the machine once more, step by step, with these operations alone. Each function
of it is shown to come to what the machine's own function gives, so that no
defect is ever come upon.

This module has the operations, the widths and the natural indexes.
-/

namespace RegisterVM

/-- What an operation comes upon where it has no result. -/
inductive Defect where
  /-- A case that is taken never to arise. -/
  | unreachable
  /-- A place or a range outside of what is looked at, or a copy between ranges
  of unlike lengths. -/
  | outOfRange
  | divisionByZero
  /-- A result that its type has no room for. -/
  | overflow
  /-- A shift by all the bits of its operand, or more. -/
  | shiftTooFar
  deriving DecidableEq

namespace Checked

theorem ok_bind {α β : Type} (value : α) (next : α → Except Defect β) :
    (Except.ok value >>= next) = next value :=
  rfl

/-! ## Numbers of so many bits -/

/-- The sum of two numbers of `bits` bits. -/
def add (bits : Nat) (left right : Nat) : Except Defect Nat :=
  if left + right < 2 ^ bits then .ok (left + right) else .error .overflow

/-- The difference of two unsigned numbers. -/
def sub (left right : Nat) : Except Defect Nat :=
  if right ≤ left then .ok (left - right) else .error .overflow

/-- The product of two numbers of `bits` bits. -/
def mul (bits : Nat) (left right : Nat) : Except Defect Nat :=
  if left * right < 2 ^ bits then .ok (left * right) else .error .overflow

theorem add_eq {bits left right : Nat} (room : left + right < 2 ^ bits) :
    add bits left right = .ok (left + right) :=
  if_pos room

theorem sub_eq {left right : Nat} (le : right ≤ left) : sub left right = .ok (left - right) :=
  if_pos le

theorem mul_eq {bits left right : Nat} (room : left * right < 2 ^ bits) :
    mul bits left right = .ok (left * right) :=
  if_pos room

/-! ## Words -/

def subWord (left right : UInt64) : Except Defect UInt64 :=
  if right ≤ left then .ok (left - right) else .error .overflow

def divide (left right : UInt64) : Except Defect UInt64 :=
  if right = 0 then .error .divisionByZero else .ok (left / right)

def remainder (left right : UInt64) : Except Defect UInt64 :=
  if right = 0 then .error .divisionByZero else .ok (left % right)

def shiftLeft (value : UInt64) (count : Nat) : Except Defect UInt64 :=
  if count < 64 then .ok (value <<< UInt64.ofNat count) else .error .shiftTooFar

def shiftRight (value : UInt64) (count : Nat) : Except Defect UInt64 :=
  if count < 64 then .ok (value >>> UInt64.ofNat count) else .error .shiftTooFar

/-- The shift that fills with the sign. -/
def shiftRightSigned (value : Int64) (count : Nat) : Except Defect Int64 :=
  if count < 64 then .ok (value >>> (UInt64.ofNat count).toInt64) else .error .shiftTooFar

theorem subWord_eq {left right : UInt64} (le : right ≤ left) :
    subWord left right = .ok (left - right) :=
  if_pos le

theorem divide_eq {left right : UInt64} (nonzero : right ≠ 0) :
    divide left right = .ok (left / right) :=
  if_neg nonzero

theorem remainder_eq {left right : UInt64} (nonzero : right ≠ 0) :
    remainder left right = .ok (left % right) :=
  if_neg nonzero

theorem shiftLeft_eq {value : UInt64} {count : Nat} (lt : count < 64) :
    shiftLeft value count = .ok (value <<< UInt64.ofNat count) :=
  if_pos lt

theorem shiftRight_eq {value : UInt64} {count : Nat} (lt : count < 64) :
    shiftRight value count = .ok (value >>> UInt64.ofNat count) :=
  if_pos lt

/-! ## Signed division -/

/-- The quotient of two signed words, which the least word divided by `-1` is too large for. -/
def divideSigned (left right : Int64) : Except Defect Int64 :=
  if right = 0 then .error .divisionByZero
  else if left = Int64.minValue ∧ right = -1 then .error .overflow
  else .ok (left / right)

/-- The remainder of that quotient, which is missing where the quotient is. -/
def remainderSigned (left right : Int64) : Except Defect Int64 :=
  if right = 0 then .error .divisionByZero
  else if left = Int64.minValue ∧ right = -1 then .error .overflow
  else .ok (left % right)

/-- The quotient that wraps: the one that is too large is taken as it comes round. -/
def wrappingDivide (left right : Int64) : Except Defect Int64 :=
  if left = Int64.minValue ∧ right = -1 then .ok left else divideSigned left right

/-- The remainder that belongs to the quotient that wraps. -/
def wrappingRemainder (left right : Int64) : Except Defect Int64 :=
  if left = Int64.minValue ∧ right = -1 then .ok 0 else remainderSigned left right

theorem wrappingDivide_eq {left right : Int64} (nonzero : right ≠ 0) :
    wrappingDivide left right = .ok (left / right) := by
  unfold wrappingDivide
  split
  next least =>
    obtain ⟨rfl, rfl⟩ := least
    rfl
  next other => rw [divideSigned, if_neg nonzero, if_neg other]

theorem wrappingRemainder_eq {left right : Int64} (nonzero : right ≠ 0) :
    wrappingRemainder left right = .ok (left % right) := by
  unfold wrappingRemainder
  split
  next least =>
    obtain ⟨rfl, rfl⟩ := least
    rfl
  next other => rw [remainderSigned, if_neg nonzero, if_neg other]

/-! ## Places and ranges -/

/-- What stands at a place of a table. -/
def lookUp {α : Type} (table : List α) (place : Nat) : Except Defect α :=
  match table[place]? with
  | some found => .ok found
  | none => .error .outOfRange

/-- What stands from `start` up to `stop`. -/
def slice {α : Type} (source : List α) (start stop : Nat) : Except Defect (List α) :=
  if start ≤ stop ∧ stop ≤ source.length then .ok ((source.take stop).drop start)
  else .error .outOfRange

/-- `target` with `source` in place of what stood from `start` up to `stop`. -/
def copy {α : Type} (target : List α) (start stop : Nat) (source : List α) :
    Except Defect (List α) :=
  if start ≤ stop ∧ stop ≤ target.length ∧ source.length = stop - start then
    .ok (target.take start ++ source ++ target.drop stop)
  else .error .outOfRange

theorem slice_eq {α : Type} {source : List α} {start stop : Nat} (le : start ≤ stop)
    (inside : stop ≤ source.length) :
    slice source start stop = .ok ((source.take stop).drop start) :=
  if_pos ⟨le, inside⟩

/-! ## Widths -/

/-- The number of bits, a product of `usize` numbers. -/
def bits (width : Width) : Except Defect Nat :=
  mul 64 width.bytes 8

@[simp] theorem bits_eq (width : Width) : bits width = .ok width.bits := by
  cases width <;> rfl

/-- The low bits that the width has room for; of a quad they are all, and no mask is formed. -/
def truncate (width : Width) (value : UInt64) : Except Defect UInt64 :=
  match width with
  | .quad => .ok value
  | .byte | .word | .double => do
      let power ← shiftLeft 1 (← bits width)
      return value &&& (← subWord power 1)

@[simp] theorem truncate_eq (width : Width) (value : UInt64) :
    truncate width value = .ok (width.truncate value) := by
  cases width <;> rfl

/-- The low bits, taken for a two's complement number. -/
def signExtend (width : Width) (value : UInt64) : Except Defect Int64 := do
  let shift ← sub 64 (← bits width)
  let top ← shiftLeft value shift
  shiftRightSigned top.toInt64 shift

@[simp] theorem signExtend_eq (width : Width) (value : UInt64) :
    signExtend width value = .ok (width.signExtend value) := by
  cases width <;> rfl

/-! ## Natural indexes -/

/-- A mask of so many low bits. -/
def lowMask (count : Nat) : Except Defect UInt64 :=
  if count = 0 then .ok 0
  else if 64 ≤ count then .ok (-1)
  else do subWord (← shiftLeft 1 count) 1

/-- Of a mask there is as much as of the word of ones. -/
theorem lowMask_eq (count : Nat) : lowMask count = .ok (Word.lowBits count (-1)) := by
  unfold lowMask
  by_cases none : count = 0
  · subst none
    rfl
  · by_cases narrow : count < 64
    · have positive : (1 : UInt64) ≤ 1 <<< UInt64.ofNat count := by
        rw [UInt64.le_iff_toNat_le, Word.toNat_one_shiftLeft narrow]
        exact Nat.two_pow_pos count
      rw [if_neg none, if_neg (by omega), shiftLeft_eq narrow, ok_bind, subWord_eq positive,
        Word.lowBits, if_pos narrow]
      simp
    · rw [if_neg none, if_pos (by omega), Word.lowBits, if_neg narrow]

/-- A mask cuts a word to its low bits. -/
theorem and_lowBits (count : Nat) (value : UInt64) :
    value &&& Word.lowBits count (-1) = Word.lowBits count value := by
  unfold Word.lowBits
  split
  next => simp
  next => simp

/-- The parts of an index, each cut out by a shift and a mask. -/
def naturalIndex (width : Width) (raw : UInt64) : Except Defect NaturalIndex := do
  let bits ← bits width
  let raw ← truncate width raw
  let w := (← shiftRight raw (← sub bits 4)) &&& 0x7
  let naturalBits := min ((← mul 32 w.toNat bits) / 8) (← sub bits 4)
  let constantBits ← sub (← sub bits 4) naturalBits
  let sign := (← shiftRight raw (← sub bits 1)) &&& 1
  let natural := raw &&& (← lowMask naturalBits)
  let constant := (← shiftRight raw naturalBits) &&& (← lowMask constantBits)
  return ⟨sign == 1, natural, constant⟩

/-- The field `w` is at most seven, so that the product stays inside 32 bits; the natural units are
cut to the bits below the field, so that both shifts stay inside the word. -/
@[simp] theorem naturalIndex_eq (width : Width) (raw : UInt64) :
    naturalIndex width raw = .ok (NaturalIndex.decode width raw) := by
  have least := width.bytes_pos
  have most := width.bytes_le
  have bits : width.bits = 8 * width.bytes := rfl
  have product (value : UInt64) : (Word.lowBits 3 value).toNat * width.bits < 2 ^ 32 := by
    have seven : (Word.lowBits 3 value).toNat ≤ 7 := by
      rw [Word.toNat_lowBits]
      omega
    exact Nat.lt_of_le_of_lt (Nat.mul_le_mul seven (by omega : width.bits ≤ 64)) (by decide)
  have natural (value : UInt64) : NaturalIndex.naturalBits width value ≤ width.bits - 4 :=
    Nat.min_le_right _ _
  have inside (value : UInt64) : NaturalIndex.naturalBits width value < 64 :=
    Nat.lt_of_le_of_lt (natural value) (by omega)
  have field (value : UInt64) : value &&& 0x7 = Word.lowBits 3 value := rfl
  have units (value : UInt64) :
      min ((Word.lowBits 3 (value >>> UInt64.ofNat (width.bits - 4))).toNat * width.bits / 8)
        (width.bits - 4) = NaturalIndex.naturalBits width value := rfl
  simp only [naturalIndex, bits_eq, truncate_eq, ok_bind, sub_eq (show 4 ≤ width.bits by omega),
    sub_eq (show 1 ≤ width.bits by omega), shiftRight_eq (show width.bits - 4 < 64 by omega),
    shiftRight_eq (show width.bits - 1 < 64 by omega), field, mul_eq (product _), units,
    sub_eq (natural _), shiftRight_eq (inside _), lowMask_eq, and_lowBits]
  rfl

end Checked

end RegisterVM
