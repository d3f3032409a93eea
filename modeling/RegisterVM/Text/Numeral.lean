/-!
# Written numbers

The spellings of numbers in listings, displays and messages: plain decimal,
lowercase hexadecimal after `0x`, and hexadecimal filled with zeros to a least
number of digits. Texts are lists of characters throughout the library; a
string is made of them only where they leave it.

`toDigits_injective` says that a number can be told from its digits.
-/

namespace RegisterVM.Numeral

/-- The decimal digits of `n`. -/
def decimal (n : Nat) : List Char :=
  Nat.toDigits 10 n

/-- The lowercase hexadecimal digits of `n`. -/
def hexDigits (n : Nat) : List Char :=
  Nat.toDigits 16 n

/-- At least `count` lowercase hexadecimal digits, filled with zeros from the
left. -/
def hexField (count n : Nat) : List Char :=
  (hexDigits n).leftpad count '0'

/-- `0x` and the hexadecimal digits of `n`. -/
def hex (n : Nat) : List Char :=
  '0' :: 'x' :: hexDigits n

/-- `0x` and at least `count` hexadecimal digits. -/
def hexPadded (count n : Nat) : List Char :=
  '0' :: 'x' :: hexField count n

/-- The characters of digits below sixteen are all different. -/
theorem digitChar_injective {d e : Nat} (hd : d < 16) (he : e < 16)
    (same : d.digitChar = e.digitChar) : d = e := by
  have apart : ∀ d < 16, ∀ e < 16, d.digitChar = e.digitChar → d = e := by decide
  exact apart d hd e he same

/-- A number is known from its digits, in any base up to sixteen. -/
theorem toDigits_injective {base m n : Nat} (one_lt : 1 < base) (le_sixteen : base ≤ 16)
    (same : Nat.toDigits base m = Nat.toDigits base n) : m = n := by
  induction m using Nat.strongRecOn generalizing n with
  | ind m ih =>
      have digit_lt (k : Nat) : k % base < 16 :=
        Nat.lt_of_lt_of_le (Nat.mod_lt k (by omega)) le_sixteen
      -- One digit is never spelled like a number of several.
      have longer (k : Nat) (d e : Char) : [d] ≠ Nat.toDigits base k ++ [e] := by
        intro h
        have sameLength := congrArg List.length h
        simp [Nat.toDigits_ne_nil] at sameLength
      rw [Nat.toDigits_eq_if one_lt, Nat.toDigits_eq_if one_lt (n := n)] at same
      split at same
      next =>
        split at same
        next => exact digitChar_injective (by omega) (by omega) (List.singleton_inj.mp same)
        next => exact absurd same (longer _ _ _)
      next =>
        split at same
        next => exact absurd same.symm (longer _ _ _)
        next =>
          obtain ⟨front, last⟩ := List.append_inj' same rfl
          have quotient := ih (m / base) (Nat.div_lt_self (by omega) one_lt) front
          have remainder :=
            digitChar_injective (digit_lt m) (digit_lt n) (List.singleton_inj.mp last)
          rw [← Nat.div_add_mod m base, ← Nat.div_add_mod n base, quotient, remainder]

end RegisterVM.Numeral
