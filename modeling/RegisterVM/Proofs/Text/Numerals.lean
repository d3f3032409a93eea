import Mathlib.Tactic.WLOG
import RegisterVM.Proofs.Text.Unambiguous

/-!
# Numbers filled with zeros

A number can be told from its digits also where zeros are put before them: no number but
zero starts with one, so that where the zeros end is where the digits begin
(`Numeral.hexField_injective`). All characters of a number are letters and digits, which
is what a number is told from its surroundings by.
-/

namespace RegisterVM.Numeral

variable {base : Nat}

theorem isAlphanum_of_mem_toDigits (one_lt : 1 < base) (le_sixteen : base ≤ 16) (n : Nat) :
    ∀ c ∈ Nat.toDigits base n, c.isAlphanum = true := by
  have single : ∀ d < 16, d.digitChar.isAlphanum = true := by decide
  induction n using Nat.strongRecOn with
  | ind n ih =>
      intro c spelled
      rw [Nat.toDigits_eq_if one_lt] at spelled
      split at spelled
      next small =>
        rw [List.mem_singleton.mp spelled]
        exact single n (by omega)
      next =>
        rcases List.mem_append.mp spelled with front | last
        · exact ih (n / base) (Nat.div_lt_self (by omega) one_lt) c front
        · rw [List.mem_singleton.mp last]
          exact single _ (Nat.lt_of_lt_of_le (Nat.mod_lt n (by omega)) le_sixteen)

/-- No number but zero starts with a zero. -/
theorem eq_zero_of_head?_toDigits (one_lt : 1 < base) (le_sixteen : base ≤ 16) {n : Nat}
    (zero : (Nat.toDigits base n).head? = some '0') : n = 0 := by
  induction n using Nat.strongRecOn with
  | ind n ih =>
      rw [Nat.toDigits_eq_if one_lt] at zero
      split at zero
      next small => exact digitChar_injective (by omega) (by decide) (Option.some.inj zero)
      next large =>
        obtain ⟨first, rest, front⟩ :=
          List.exists_cons_of_ne_nil (Nat.toDigits_ne_nil (n := n / base) (b := base))
        have quotient := ih (n / base) (Nat.div_lt_self (by omega) one_lt) (by
          rw [front] at zero ⊢
          exact zero)
        exact absurd ((Nat.div_eq_zero_iff_lt (by omega)).mp quotient) large

/-- Zeros before a number are not part of another one. -/
theorem eq_of_toDigits_eq_zeros (one_lt : 1 < base) (le_sixteen : base ≤ 16) {zeros m n : Nat}
    (same : Nat.toDigits base m = List.replicate zeros '0' ++ Nat.toDigits base n) : m = n := by
  cases zeros with
  | zero => exact toDigits_injective one_lt le_sixteen same
  | succ zeros =>
      have first : (Nat.toDigits base m).head? = some '0' := by rw [same]; rfl
      rw [eq_zero_of_head?_toDigits one_lt le_sixteen first, Nat.toDigits_eq_if one_lt,
        if_pos (by omega)] at same
      -- The digit of zero is used up by the first of the zeros.
      have rest := (List.append_eq_nil_iff.mp (List.cons.inj same).2.symm).2
      exact absurd rest Nat.toDigits_ne_nil

/-- A number can be told from any zeros before it. -/
theorem eq_of_zeros_toDigits (one_lt : 1 < base) (le_sixteen : base ≤ 16) {zeros zeros' m n : Nat}
    (same : List.replicate zeros '0' ++ Nat.toDigits base m
      = List.replicate zeros' '0' ++ Nat.toDigits base n) : m = n := by
  wlog fewer : zeros ≤ zeros' generalizing zeros zeros' m n
  · exact (this same.symm (Nat.le_of_not_le fewer)).symm
  obtain ⟨more, rfl⟩ := Nat.exists_eq_add_of_le fewer
  rw [← List.replicate_append_replicate, List.append_assoc, List.append_cancel_left_eq] at same
  exact eq_of_toDigits_eq_zeros one_lt le_sixteen same

theorem hexField_injective {count m n : Nat} (same : hexField count m = hexField count n) :
    m = n :=
  eq_of_zeros_toDigits (by decide) (by decide) same

theorem hexPadded_injective {count m n : Nat} (same : hexPadded count m = hexPadded count n) :
    m = n :=
  hexField_injective (List.cons.inj (List.cons.inj same).2).2

theorem isAlphanum_of_mem_decimal {n : Nat} : ∀ c ∈ decimal n, c.isAlphanum = true :=
  isAlphanum_of_mem_toDigits (by decide) (by decide) n

/-- The mark of a number in hexadecimal is spelled as its digits are. -/
theorem isAlphanum_of_mem_marked {digits : List Char}
    (spelled : ∀ c ∈ digits, c.isAlphanum = true) :
    ∀ c ∈ '0' :: 'x' :: digits, c.isAlphanum = true :=
  List.forall_mem_cons.mpr ⟨rfl, List.forall_mem_cons.mpr ⟨rfl, spelled⟩⟩

theorem isAlphanum_of_mem_hex {n : Nat} : ∀ c ∈ hex n, c.isAlphanum = true :=
  isAlphanum_of_mem_marked (isAlphanum_of_mem_toDigits (by decide) (by decide) n)

theorem isAlphanum_of_mem_hexPadded {count n : Nat} :
    ∀ c ∈ hexPadded count n, c.isAlphanum = true := by
  refine isAlphanum_of_mem_marked fun c spelled => ?_
  rcases List.mem_append.mp spelled with zeros | digits
  · rw [List.eq_of_mem_replicate zeros]
    rfl
  · exact isAlphanum_of_mem_toDigits (by decide) (by decide) n c digits

/-- A number in hexadecimal ends where something else than a letter or a digit comes next. -/
theorem hex_append_injective {m n : Nat} {rest rest' : List Char}
    (same : hex m ++ rest = hex n ++ rest') (ends : Breaks Char.isAlphanum rest)
    (ends' : Breaks Char.isAlphanum rest') : m = n ∧ rest = rest' := by
  obtain ⟨sameNumber, sameRest⟩ :=
    eq_and_eq_of_append same isAlphanum_of_mem_hex isAlphanum_of_mem_hex ends ends'
  have sameDigits := (List.cons.inj (List.cons.inj sameNumber).2).2
  exact ⟨toDigits_injective (by decide) (by decide) sameDigits, sameRest⟩

end RegisterVM.Numeral
