import RegisterVM.Instruction.Text
import RegisterVM.Proofs.Codec.WellFormed

/-!
# What can be read off a line of a listing

Each part of the text of an instruction ends where a character comes next that
cannot belong to it, so that the parts can be told apart from the left: the
mnemonic ends before the first character that is no letter, a number before the
first that is no digit, an operand without an index in front of anything but an
opening parenthesis. `eq_and_eq_of_append` is the one rule behind all of them.

Equal texts of well-formed instructions are therefore texts of one opcode, and
show the same operands with the same displacements and immediates.
-/

namespace RegisterVM

/-! ## Where a part of a text ends -/

/-- The text is at its end, or goes on with a character that is not of the
kind. -/
def Breaks (kind : Char → Bool) (text : List Char) : Prop :=
  ∀ next ∈ text.head?, kind next = false

theorem breaks_nil (kind : Char → Bool) : Breaks kind [] := by
  intro next absent
  contradiction

theorem breaks_cons {kind : Char → Bool} {next : Char} (other : kind next = false)
    (text : List Char) : Breaks kind (next :: text) := by
  intro found there
  obtain rfl := Option.some.inj there
  exact other

/-- A text that begins with characters of one kind and then breaks off falls into
these two parts in one way only. -/
theorem eq_and_eq_of_append {kind : Char → Bool} {first first' rest rest' : List Char}
    (same : first ++ rest = first' ++ rest')
    (all : ∀ c ∈ first, kind c = true) (all' : ∀ c ∈ first', kind c = true)
    (ends : Breaks kind rest) (ends' : Breaks kind rest') : first = first' ∧ rest = rest' := by
  induction first generalizing first' with
  | nil =>
      cases first' with
      | nil => exact ⟨rfl, same⟩
      | cons c first' =>
          have broken := ends c (by rw [show rest = c :: (first' ++ rest') from same]; rfl)
          rw [all' c List.mem_cons_self] at broken
          contradiction
  | cons c first ih =>
      cases first' with
      | nil =>
          have broken := ends' c (by rw [← show c :: (first ++ rest) = rest' from same]; rfl)
          rw [all c List.mem_cons_self] at broken
          contradiction
      | cons c' first' =>
          obtain ⟨rfl, others⟩ := List.cons.inj same
          obtain ⟨rfl, sameRest⟩ := ih others
            (fun one there => all one (List.mem_cons_of_mem _ there))
            (fun one there => all' one (List.mem_cons_of_mem _ there))
          exact ⟨rfl, sameRest⟩

/-! ## Operands -/

theorem Numeral.decimal_append_injective {m n : Nat} {rest rest' : List Char}
    (same : decimal m ++ rest = decimal n ++ rest') (ends : Breaks Char.isDigit rest)
    (ends' : Breaks Char.isDigit rest') : m = n ∧ rest = rest' := by
  have digits (number : Nat) : ∀ c ∈ decimal number, c.isDigit = true :=
    fun _ => Nat.isDigit_of_mem_toDigits (by decide) (by decide)
  obtain ⟨sameDigits, sameRest⟩ := eq_and_eq_of_append same (digits m) (digits n) ends ends'
  exact ⟨toDigits_injective (by decide) (by decide) sameDigits, sameRest⟩

theorem NaturalIndex.text_append_injective {index index' : NaturalIndex}
    {rest rest' : List Char} (same : index.text ++ rest = index'.text ++ rest') :
    index = index' ∧ rest = rest' := by
  obtain ⟨negative, natural, constant⟩ := index
  obtain ⟨negative', natural', constant'⟩ := index'
  simp only [text, List.cons_append, List.append_assoc, List.nil_append, List.cons.injEq,
    true_and] at same
  obtain ⟨sameSign, same⟩ := same
  obtain ⟨sameNatural, same⟩ := Numeral.decimal_append_injective same
    (breaks_cons (by decide) _) (breaks_cons (by decide) _)
  simp only [List.cons.injEq, true_and] at same
  obtain ⟨sameConstant, same⟩ := Numeral.decimal_append_injective same.2
    (breaks_cons (by decide) _) (breaks_cons (by decide) _)
  have told : ∀ negative negative' : Bool,
      (if negative then '-' else '+') = (if negative' then '-' else '+') →
        negative = negative' := by decide
  refine ⟨?_, (List.cons.inj same).2⟩
  rw [told negative negative' sameSign, UInt64.toNat.inj sameNatural,
    UInt64.toNat.inj sameConstant]

theorem Register.text_append_injective {register register' : Register} {rest rest' : List Char}
    (same : register.text ++ rest = register'.text ++ rest') :
    register = register' ∧ rest = rest' := by
  have length (r : Register) : r.text.length = 2 := by cases r <;> decide
  obtain ⟨sameText, sameRest⟩ := List.append_inj same (by rw [length, length])
  refine ⟨index_injective (Fin.eq_of_val_eq ?_), sameRest⟩
  exact Numeral.toDigits_injective (by decide) (by decide) (List.cons.inj sameText).2

/-- What may stand behind an operand without being taken for its index. -/
abbrev AfterOperand (text : List Char) : Prop :=
  Breaks (· == '(') text

theorem Operand.text_append_injective {operand operand' : Operand}
    {index index' : Option NaturalIndex} {rest rest' : List Char}
    (same : operand.text index ++ rest = operand'.text index' ++ rest')
    (ends : AfterOperand rest) (ends' : AfterOperand rest') :
    operand = operand' ∧ index = index' ∧ rest = rest' := by
  obtain ⟨register, indirect⟩ := operand
  obtain ⟨register', indirect'⟩ := operand'
  have sameIndirect : indirect = indirect' := by
    cases indirect <;> cases indirect' <;> simp [text, Register.text] at same ⊢
  subst sameIndirect
  simp only [text, List.append_assoc, List.append_cancel_left_eq] at same
  obtain ⟨rfl, tail⟩ := Register.text_append_injective same
  refine ⟨rfl, ?_⟩
  -- An index starts with the character that what follows the operand does not.
  cases index with
  | none =>
      cases index' with
      | none => exact ⟨rfl, tail⟩
      | some index' =>
          have broken := ends '(' (by rw [show rest = index'.text ++ rest' from tail]; rfl)
          contradiction
  | some index =>
      cases index' with
      | none =>
          have broken := ends' '(' (by rw [← show index.text ++ rest = rest' from tail]; rfl)
          contradiction
      | some index' =>
          obtain ⟨rfl, sameRest⟩ := NaturalIndex.text_append_injective tail
          exact ⟨rfl, sameRest⟩

/-- Of two operands with a comma between them the first can be split off. -/
theorem Operand.text_comma_injective {operand operand' : Operand}
    {index index' : Option NaturalIndex} {rest rest' : List Char}
    (same : operand.text index ++ ',' :: ' ' :: rest
      = operand'.text index' ++ ',' :: ' ' :: rest') :
    (operand = operand' ∧ index = index') ∧ rest = rest' := by
  obtain ⟨sameOperand, sameIndex, tail⟩ := text_append_injective same
    (breaks_cons (by decide) _) (breaks_cons (by decide) _)
  exact ⟨⟨sameOperand, sameIndex⟩, (List.cons.inj (List.cons.inj tail).2).2⟩

namespace Instruction

/-- The index that the carrier shows. -/
def shownIndex? (instruction : Instruction) : Option NaturalIndex :=
  if instruction.carrier.indirect then instruction.carrierIndex? else none

/-- The plain value that the carrier shows. -/
def shownValue? (instruction : Instruction) : Option UInt32 :=
  if instruction.carrier.indirect then none else instruction.immediate?

/-- The text of a plain value behind its carrier. -/
def valueText (value : Option UInt32) : List Char :=
  match value with
  | none => []
  | some value => ' ' :: Numeral.hex value.toNat

theorem carrierText_eq (instruction : Instruction) :
    instruction.carrierText
      = instruction.carrier.text instruction.shownIndex? ++ valueText instruction.shownValue? := by
  unfold carrierText shownIndex? shownValue?
  cases instruction.carrier.indirect with
  | true => simp [valueText]
  | false => rfl

theorem valueText_injective {value value' : Option UInt32}
    (same : valueText value = valueText value') : value = value' := by
  cases value with
  | none =>
      cases value' with
      | none => rfl
      | some _ => contradiction
  | some value =>
      cases value' with
      | none => contradiction
      | some value' =>
          simp only [valueText, Numeral.hex, Numeral.hexDigits, List.cons.injEq, true_and] at same
          rw [UInt32.toNat.inj (Numeral.toDigits_injective (by decide) (by decide) same)]

theorem afterOperand_valueText (value : Option UInt32) : AfterOperand (valueText value) := by
  cases value with
  | none => exact breaks_nil _
  | some value => exact breaks_cons (by decide) _

theorem carrierText_injective {instruction other : Instruction}
    (same : instruction.carrierText = other.carrierText) :
    instruction.carrier = other.carrier ∧ instruction.shownIndex? = other.shownIndex?
      ∧ instruction.shownValue? = other.shownValue? := by
  rw [carrierText_eq, carrierText_eq] at same
  obtain ⟨sameCarrier, sameIndex, sameValue⟩ := Operand.text_append_injective same
    (afterOperand_valueText _) (afterOperand_valueText _)
  exact ⟨sameCarrier, sameIndex, valueText_injective sameValue⟩

theorem genericOperands_injective {instruction other : Instruction}
    (sameOpcode : instruction.opcode = other.opcode)
    (same : instruction.genericOperands = other.genericOperands) :
    instruction.carrierText = other.carrierText
      ∧ (instruction.opcode ≠ .push → instruction.opcode ≠ .pop →
          instruction.operand1 = other.operand1) := by
  unfold genericOperands at same
  rw [← sameOpcode] at same
  cases opcode : instruction.opcode with
  | push =>
      simp only [opcode] at same
      exact ⟨same, fun notPush => absurd rfl notPush⟩
  | pop =>
      simp only [opcode] at same
      exact ⟨same, fun _ notPop => absurd rfl notPop⟩
  | _ =>
      simp only [opcode, List.append_assoc, List.cons_append, List.nil_append] at same
      obtain ⟨⟨sameOperand, -⟩, sameCarrier⟩ := Operand.text_comma_injective same
      exact ⟨sameCarrier, fun _ _ => sameOperand⟩

end Instruction

/-! ## The mnemonic -/

theorem Opcode.mnemonic_letters (opcode : Opcode) :
    ∀ c ∈ opcode.mnemonic.toList, c.isAlpha = true := by
  have letters : all.all (·.mnemonic.toList.all Char.isAlpha) = true := by decide
  exact List.all_eq_true.mp (List.all_eq_true.mp letters opcode (mem_all opcode))

theorem Opcode.mnemonic_injective {opcode other : Opcode}
    (same : opcode.mnemonic.toList = other.mnemonic.toList) : opcode = other := by
  have found : ∀ opcode ∈ all,
      all.find? (·.mnemonic.toList == opcode.mnemonic.toList) = some opcode := by decide
  have first := found opcode (mem_all opcode)
  rw [same, found other (mem_all other)] at first
  exact (Option.some.inj first).symm

namespace Instruction

/-- What stands behind the mnemonic. -/
def detail (instruction : Instruction) : List Char :=
  match instruction.arguments with
  | .generic wide _ =>
      match instruction.opcode with
      | .nop | .ret => []
      | _ => (Width.natural wide).text ++ ' ' :: instruction.genericOperands
  | .move _ indexWidth index1 index2 =>
      ' ' :: instruction.operand1.text (index1.map (NaturalIndex.decode indexWidth))
        ++ ',' :: ' ' :: instruction.operand2.text (index2.map (NaturalIndex.decode indexWidth))

theorem text_eq (instruction : Instruction) :
    instruction.text = instruction.opcode.mnemonic.toList ++ instruction.detail := by
  obtain ⟨opcode, operand1, operand2, arguments⟩ := instruction
  cases arguments with
  | generic wide immediate =>
      cases opcode with
      | nop => exact (List.append_nil _).symm
      | ret => exact (List.append_nil _).symm
      | _ => simp [text, detail]
  | move valueWidth indexWidth index1 index2 => simp [text, detail]

theorem breaks_detail (instruction : Instruction) : Breaks Char.isAlpha instruction.detail := by
  have spelled (wide : Bool) (rest : List Char) :
      Breaks Char.isAlpha ((Width.natural wide).text ++ rest) := by
    cases wide <;> exact breaks_cons (by decide) _
  obtain ⟨opcode, operand1, operand2, arguments⟩ := instruction
  cases arguments with
  | generic wide immediate =>
      cases opcode with
      | nop => exact breaks_nil _
      | ret => exact breaks_nil _
      | _ => exact spelled wide _
  | move valueWidth indexWidth index1 index2 => exact breaks_cons (by decide) _

theorem opcode_eq_of_text_eq {instruction other : Instruction}
    (same : instruction.text = other.text) :
    instruction.opcode = other.opcode ∧ instruction.detail = other.detail := by
  rw [text_eq, text_eq] at same
  obtain ⟨sameMnemonic, sameDetail⟩ := eq_and_eq_of_append same
    instruction.opcode.mnemonic_letters other.opcode.mnemonic_letters
    instruction.breaks_detail other.breaks_detail
  exact ⟨Opcode.mnemonic_injective sameMnemonic, sameDetail⟩

theorem genericDetail_injective {wide wide' : Bool} {rest rest' : List Char}
    (same : (Width.natural wide).text ++ ' ' :: rest
      = (Width.natural wide').text ++ ' ' :: rest') : wide = wide' ∧ rest = rest' := by
  obtain ⟨sameBits, tail⟩ := Numeral.decimal_append_injective same
    (breaks_cons (by decide) _) (breaks_cons (by decide) _)
  have told : ∀ wide wide' : Bool,
      (Width.natural wide).bits = (Width.natural wide').bits → wide = wide' := by decide
  exact ⟨told wide wide' sameBits, (List.cons.inj tail).2⟩

theorem moveDetail_injective {operand1 operand2 operand1' operand2' : Operand}
    {index1 index2 index1' index2' : Option NaturalIndex}
    (same : operand1.text index1 ++ ',' :: ' ' :: operand2.text index2
      = operand1'.text index1' ++ ',' :: ' ' :: operand2'.text index2') :
    (operand1 = operand1' ∧ index1 = index1') ∧ operand2 = operand2' ∧ index2 = index2' := by
  obtain ⟨same1, tail⟩ := Operand.text_comma_injective same
  rw [← List.append_nil (operand2.text index2), ← List.append_nil (operand2'.text index2')] at tail
  obtain ⟨same2, sameIndex2, -⟩ :=
    Operand.text_append_injective tail (breaks_nil _) (breaks_nil _)
  exact ⟨same1, same2, sameIndex2⟩

end Instruction

end RegisterVM
