import RegisterVM.Instruction.Text
import RegisterVM.Proofs.Checked.Arithmetic
import RegisterVM.Proofs.Codec.WellFormed
import RegisterVM.Proofs.Word.Halves

/-!
# Reading, writing and listing without a defect

Encoded instructions in the operations that may come upon a defect: opcodes out
of a table, the header as one word of 16 bits that is shifted and masked, fields
for which no width of one byte is provided, and the low bytes of an index as a
slice. `decode_eq`, `encode_eq` and `text_eq` say that none is come upon, whatever
the bytes and the instruction.
-/

namespace RegisterVM

namespace Checked

/-! ## The header -/

/-- The bit of a header word that holds flag A. -/
def bitA : UInt16 := 0x0080

/-- The bit of a header word that holds flag B. -/
def bitB : UInt16 := 0x0040

/-- The bit of a header word that marks operand 1 indirect. -/
def indirectBit1 : UInt16 := 0x0800

/-- The bit of a header word that marks operand 2 indirect. -/
def indirectBit2 : UInt16 := 0x8000

/-- A shift downward of a word of 16 bits. -/
def shiftRight16 (value : UInt16) (count : Nat) : Except Defect UInt16 :=
  if count < 16 then .ok (value >>> UInt16.ofNat count) else .error .shiftTooFar

/-- A shift upward; what leaves the word at the top is dropped. -/
def shiftLeft16 (value : UInt16) (count : Nat) : Except Defect UInt16 :=
  if count < 16 then .ok (value <<< UInt16.ofNat count) else .error .shiftTooFar

theorem shiftRight16_eq {value : UInt16} {count : Nat} (lt : count < 16) :
    shiftRight16 value count = .ok (value >>> UInt16.ofNat count) :=
  if_pos lt

/-- The opcodes by their code; a code that is reserved has a `NOP`. -/
def opcodeTable : List Opcode :=
  [.nop, .nop, .nop, .nop, .ret, .nop, .nop, .nop,
    .nop, .nop, .unary .not, .unary .neg,
    .binary .add, .binary .sub, .binary .mul, .binary .mulu,
    .binary .div, .binary .divu, .binary .mod, .binary .modu,
    .binary .and, .binary .or, .binary .xor, .binary .shl,
    .binary .shr, .nop, .nop, .nop, .nop, .move .bw, .move .ww, .move .dw,
    .move .qw, .move .bd, .move .wd, .move .dd, .move .qd, .nop, .nop, .nop,
    .move .qq, .nop, .nop, .push, .pop, .nop, .nop, .nop,
    .nop, .nop, .nop, .nop, .nop, .nop, .nop, .nop,
    .nop, .nop, .nop, .nop, .nop, .nop, .nop, .nop]

/-- The opcode that the table has for the low six bits. -/
def resolveOpcode (raw : UInt8) : Except Defect Opcode :=
  lookUp opcodeTable (raw &&& Opcode.codeMask).toNat

/-- Six bits are less than the entries of the table, and each entry is the opcode of its place. -/
@[simp] theorem resolveOpcode_eq (raw : UInt8) : resolveOpcode raw = .ok (Opcode.ofCode raw) := by
  have entries : ∀ code < 64, opcodeTable[code]? = some (Opcode.ofCode (UInt8.ofNat code)) := by
    decide
  have place : (raw &&& Opcode.codeMask).toNat < 64 := by
    rw [UInt8.toNat_and]
    exact Nat.lt_of_le_of_lt Nat.and_le_right (by decide)
  have masked : Opcode.ofCode (raw &&& Opcode.codeMask) = Opcode.ofCode raw := by
    simp only [Opcode.ofCode, UInt8.and_assoc, UInt8.and_self]
  rw [resolveOpcode, lookUp, entries _ place, UInt8.ofNat_toNat, masked]

/-- The length of the instruction that starts with a header word, in `usize` numbers. -/
def instructionSize (header : UInt16) : Except Defect Nat := do
  let flagA := header &&& bitA != 0
  let flagB := header &&& bitB != 0
  match (← resolveOpcode header.toUInt8).moveForm? with
  | some form =>
      add 64 Header.bytes (← mul 64 (← add 64 flagA.toNat flagB.toNat) form.indexWidth.bytes)
  | none => add 64 Header.bytes (← mul 64 flagA.toNat 2)

/-! What the header word holds, read off its two bytes. -/

theorem headerWord_flagA (low high : UInt8) :
    (Word.ofHalves low high &&& bitA != 0) = (low &&& Header.bitA != 0) :=
  Word.ofHalves_and_low low high Header.bitA

theorem headerWord_flagB (low high : UInt8) :
    (Word.ofHalves low high &&& bitB != 0) = (low &&& Header.bitB != 0) :=
  Word.ofHalves_and_low low high Header.bitB

theorem headerWord_indirect1 (low high : UInt8) :
    (Word.ofHalves low high &&& indirectBit1 != 0) = (high &&& Operand.indirectBit != 0) :=
  Word.ofHalves_and_high low high Operand.indirectBit

/-- The top bit of the word is the indirection bit of the upper nibble. -/
theorem headerWord_indirect2 (low high : UInt8) :
    (Word.ofHalves low high &&& indirectBit2 != 0) = (high >>> 4 &&& Operand.indirectBit != 0) := by
  have top : ∀ nibble < 16, ∀ rest < 16,
      (UInt8.ofNat (16 * nibble + rest) &&& 0x80 != 0)
        = (UInt8.ofNat (16 * nibble + rest) >>> 4 &&& Operand.indirectBit != 0) := by
    decide
  have nibble : high.toNat / 16 < 16 := by
    have := high.toNat_lt
    omega
  have moved := top (high.toNat / 16) nibble (high.toNat % 16) (Nat.mod_lt _ (by decide))
  rw [Nat.div_add_mod, UInt8.ofNat_toNat] at moved
  exact (Word.ofHalves_and_high low high 0x80).trans moved

theorem headerWord_field1 (low high : UInt8) :
    shiftRight16 (Word.ofHalves low high) 8 = .ok high.toUInt16 := by
  rw [shiftRight16_eq (by decide), ← Word.ofHalves_shiftRight_eight low high]
  rfl

theorem headerWord_field2 (low high : UInt8) :
    shiftRight16 (Word.ofHalves low high) 12 = .ok (high >>> 4).toUInt16 := by
  rw [shiftRight16_eq (by decide), ← Word.ofHalves_shiftRight_twelve low high]
  rfl

/-- The length is that of the header, whatever the header word; at most two fields of eight bytes
trail it. -/
theorem instructionSize_ofHalves (low high : UInt8) :
    instructionSize (Word.ofHalves low high)
      = .ok (Header.sizeOf (Opcode.ofCode low) (low &&& Header.bitA != 0)
          (low &&& Header.bitB != 0)) := by
  simp only [instructionSize, headerWord_flagA, headerWord_flagB, Word.toUInt8_ofHalves,
    resolveOpcode_eq, ok_bind]
  generalize (low &&& Header.bitA != 0) = flagA
  generalize (low &&& Header.bitB != 0) = flagB
  cases Opcode.ofCode low with
  | move form => cases form <;> cases flagA <;> cases flagB <;> rfl
  | _ => cases flagA <;> cases flagB <;> rfl

/-! ## Reading -/

/-- An answer that no defect stands in the way of. -/
def answer {ε α : Type} (result : Except ε α) : ExceptT ε (Except Defect) α :=
  ExceptT.mk (.ok result)

theorem answer_ok_bind {ε α β : Type} (value : α) (next : α → ExceptT ε (Except Defect) β) :
    (answer (.ok value) >>= next) = next value :=
  rfl

theorem liftM_ok {ε α : Type} (value : α) :
    (liftM (Except.ok value : Except Defect α) : ExceptT ε (Except Defect) α)
      = answer (.ok value) :=
  rfl

/-- What was found, or the fault of finding nothing. -/
def present {ε α : Type} (missing : ε) : Option α → ExceptT ε (Except Defect) α
  | some found => answer (.ok found)
  | none => answer (.error missing)

/-- A number of so many bytes off the front. -/
def numberField? {α : Type} (count : Nat) (ofNat : Nat → α) (bytes : List UInt8) :
    Option (α × List UInt8) :=
  (LittleEndian.decodeFront? count bytes).map fun (value, rest) => (ofNat value, rest)

/-- An index off the front, of one of the widths that indexes have. -/
def indexField? (width : Width) (bytes : List UInt8) :
    Except Defect (Option (UInt64 × List UInt8)) :=
  match width with
  | .byte => .error .unreachable
  | .word | .double | .quad => .ok (numberField? width.bytes UInt64.ofNat bytes)

/-- An immediate off the front. -/
def immediateField? (bytes : List UInt8) : Except Defect (Option (UInt32 × List UInt8)) :=
  .ok (numberField? 2 UInt32.ofNat bytes)

/-- A field that is read only if it is announced. -/
def announcedField? {α : Type} (announced : Bool)
    (read : List UInt8 → Except Defect (Option (α × List UInt8))) (bytes : List UInt8) :
    Except Defect (Option (Option α × List UInt8)) :=
  if announced then do
    return (← read bytes).map fun (value, rest) => (some value, rest)
  else
    return some (none, bytes)

/-- Reads the fields behind a header; `missing` is the fault if the bytes run out. -/
def arguments (opcode : Opcode) (flagA flagB : Bool) (missing : DecodeFault) (rest : List UInt8) :
    ExceptT DecodeFault (Except Defect) Arguments := do
  match opcode.moveForm? with
  | some form =>
      let index? := indexField? form.indexWidth
      let (index1, rest) ← present missing (← announcedField? flagA index? rest)
      let (index2, _) ← present missing (← announcedField? flagB index? rest)
      return .move form.valueWidth form.indexWidth index1 index2
  | none =>
      let (immediate, _) ← present missing (← announcedField? flagA immediateField? rest)
      return .generic flagB immediate

/-- Reads the instruction at the front: its header, then its size, then its fields. -/
def decode (bytes : List UInt8) : ExceptT DecodeFault (Except Defect) Decoded := do
  let truncated (needed : Nat) : DecodeFault := .truncated needed bytes.length
  let (header, rest) ← present (truncated Header.bytes) (numberField? 2 UInt16.ofNat bytes)
  let opcode ← resolveOpcode header.toUInt8
  let operand1 ← answer (Register.ofCode ((← shiftRight16 header 8) &&& 0x7).toUInt8)
  let operand2 ← answer (Register.ofCode ((← shiftRight16 header 12) &&& 0x7).toUInt8)
  let indirect1 := header &&& indirectBit1 != 0
  let indirect2 := header &&& indirectBit2 != 0
  let flagA := header &&& bitA != 0
  let flagB := header &&& bitB != 0
  let size ← instructionSize header
  if bytes.length < size then
    answer (.error (truncated size))
  else
    let arguments ← arguments opcode flagA flagB (truncated size) rest
    return ⟨⟨opcode, ⟨operand1, indirect1⟩, ⟨operand2, indirect2⟩, arguments⟩, size⟩

/-- A number that is read where it is announced is a field. -/
theorem announcedField?_eq {α : Type} (announced : Bool) {width : Width} {ofNat : Nat → α}
    {read : List UInt8 → Except Defect (Option (α × List UInt8))} {bytes : List UInt8}
    (reads : read bytes = .ok (numberField? width.bytes ofNat bytes)) :
    announcedField? announced read bytes
      = .ok ((field? announced width bytes).map fun (value, rest) => (value.map ofNat, rest)) := by
  unfold announcedField? field?
  cases announced with
  | false => rfl
  | true =>
      rw [if_pos rfl, if_pos rfl, reads, numberField?]
      cases LittleEndian.decodeFront? width.bytes bytes <;> rfl

/-- No index is one byte wide. -/
theorem indexField?_eq (form : MoveForm) (bytes : List UInt8) :
    indexField? form.indexWidth bytes
      = .ok (numberField? form.indexWidth.bytes UInt64.ofNat bytes) := by
  cases form <;> rfl

theorem immediateField?_eq (bytes : List UInt8) :
    immediateField? bytes = .ok (numberField? Width.word.bytes UInt32.ofNat bytes) :=
  rfl

theorem arguments_eq (header : Header) (missing : DecodeFault) (rest : List UInt8) :
    arguments header.opcode header.flagA header.flagB missing rest
      = answer (match header.fields? rest with
          | none => .error missing
          | some (first, second) => .ok (header.arguments first second)) := by
  unfold arguments Header.fields? Header.arguments
  cases header.opcode with
  | move form =>
      simp only [Opcode.moveForm?, announcedField?_eq _ (indexField?_eq form _), liftM_ok,
        answer_ok_bind, Opcode.hasSecondField, Option.isSome_some, Bool.true_and,
        Opcode.fieldWidth]
      cases field? header.flagA form.indexWidth rest with
      | none => rfl
      | some first =>
          simp only [Option.map_some, present, answer_ok_bind]
          cases field? header.flagB form.indexWidth first.2 <;> rfl
  | _ =>
      simp only [Opcode.moveForm?, announcedField?_eq _ (immediateField?_eq _), liftM_ok,
        answer_ok_bind, Opcode.hasSecondField, Option.isSome_none, Bool.false_and,
        Opcode.fieldWidth]
      cases field? header.flagA .word rest <;> rfl

/-- Whether the size is looked at first or the bytes run out, the same is missing. -/
theorem complete_eq (header : Header) (available : Nat) (rest : List UInt8) :
    (if rest.length + Header.bytes < header.size then
        answer (.error (.truncated header.size available))
      else do
        let arguments ← arguments header.opcode header.flagA header.flagB
          (.truncated header.size available) rest
        return ⟨⟨header.opcode, header.operand1, header.operand2, arguments⟩, header.size⟩)
      = answer (header.complete available rest) := by
  rw [arguments_eq, Header.complete]
  by_cases short : rest.length + Header.bytes < header.size
  · rw [if_pos short, (header.fields?_eq_none_iff rest).mpr short]
  · rw [if_neg short]
    cases header.fields? rest <;> rfl

/-- The first two bytes are read as the header word. -/
theorem numberField?_headerWord (low high : UInt8) (rest : List UInt8) :
    numberField? 2 UInt16.ofNat (low :: high :: rest) = some (Word.ofHalves low high, rest) := by
  have front : UInt16.ofNat (LittleEndian.decode [low, high]) = Word.ofHalves low high := by
    rw [Word.decode_pair, UInt16.ofNat_toNat]
  rw [← front]
  rfl

theorem decode_eq (bytes : List UInt8) : decode bytes = answer (RegisterVM.decode bytes) := by
  match bytes with
  | [] => rfl
  | [_] => rfl
  | low :: high :: rest =>
      have register (byte : UInt8) :
          (byte.toUInt16 &&& 0x7).toUInt8 = byte &&& Operand.registerMask := by
        simp [Operand.registerMask]
      simp only [decode, numberField?_headerWord, present, answer_ok_bind, liftM_ok,
        Word.toUInt8_ofHalves, resolveOpcode_eq, headerWord_field1, headerWord_field2, register,
        headerWord_indirect1, headerWord_indirect2, headerWord_flagA, headerWord_flagB,
        instructionSize_ofHalves]
      simp only [RegisterVM.decode, decodeWithin, Header.ofBytes, Operand.ofNibble]
      cases Register.ofCode (high &&& Operand.registerMask) with
      | error fault => rfl
      | ok register1 =>
          simp only [answer_ok_bind]
          cases Register.ofCode (high >>> 4 &&& Operand.registerMask) with
          | error fault => rfl
          | ok register2 =>
              simp only [answer_ok_bind]
              let header : Header :=
                { opcode := Opcode.ofCode low
                  flagA := low &&& Header.bitA != 0
                  flagB := low &&& Header.bitB != 0
                  operand1 := ⟨register1, high &&& Operand.indirectBit != 0⟩
                  operand2 := ⟨register2, high >>> 4 &&& Operand.indirectBit != 0⟩ }
              exact complete_eq header _ rest

/-! ## Writing -/

/-- The low bytes of an index as a slice of its eight. -/
def indexBytes (width : Width) (index : Option UInt64) : Except Defect (List UInt8) :=
  match index with
  | none => .ok []
  | some index => slice (LittleEndian.encode 8 index.toNat) 0 width.bytes

/-- The word with one of its bits set, or as it is. -/
def mark (marked : Bool) (bit word : UInt16) : UInt16 :=
  if marked then word ||| bit else word

/-- The header word of an instruction, without what its arguments announce. -/
def plainHeader (opcode : Opcode) (operand1 operand2 : Operand) : Except Defect UInt16 := do
  let field1 ← shiftLeft16 (UInt16.ofNat operand1.register.index) 8
  let field2 ← shiftLeft16 (UInt16.ofNat operand2.register.index) 12
  let header := opcode.code.toUInt16 ||| field1 ||| field2
  return mark operand2.indirect indirectBit2 (mark operand1.indirect indirectBit1 header)

/-- Writes an instruction: its header with the marks of the arguments, and then these. -/
def encode (instruction : Instruction) : Except Defect (List UInt8) := do
  let header ← plainHeader instruction.opcode instruction.operand1 instruction.operand2
  match instruction.arguments with
  | .generic wide immediate =>
      let trailing := match immediate with
        | none => []
        | some immediate => LittleEndian.encode 2 immediate.toUInt16.toNat
      let header := mark wide bitB (mark immediate.isSome bitA header)
      return LittleEndian.encode 2 header.toNat ++ trailing
  | .move _ indexWidth index1 index2 =>
      let trailing1 ← indexBytes indexWidth index1
      let trailing2 ← indexBytes indexWidth index2
      let header := mark index2.isSome bitB (mark index1.isSome bitA header)
      return LittleEndian.encode 2 header.toNat ++ (trailing1 ++ trailing2)

theorem take_encode {short count : Nat} (le : short ≤ count) (value : Nat) :
    (LittleEndian.encode count value).take short = LittleEndian.encode short value := by
  induction short generalizing count value with
  | zero => rfl
  | succ short ih =>
      obtain ⟨count, rfl⟩ : ∃ less, count = less + 1 := ⟨count - 1, by omega⟩
      rw [LittleEndian.encode, LittleEndian.encode, List.take_succ_cons, ih (by omega)]

/-- No width has more than the eight bytes of a word. -/
theorem slice_encode (width : Width) (value : Nat) :
    slice (LittleEndian.encode 8 value) 0 width.bytes
      = .ok (LittleEndian.encode width.bytes value) := by
  have inside : width.bytes ≤ (LittleEndian.encode 8 value).length := by
    rw [LittleEndian.length_encode]
    exact width.bytes_le
  rw [slice_eq (Nat.zero_le _) inside, List.drop_zero, take_encode width.bytes_le]

theorem indexBytes_eq (width : Width) (index : Option UInt64) :
    indexBytes width index = .ok (encodeField width (index.map UInt64.toNat)) := by
  cases index with
  | none => rfl
  | some index => exact slice_encode width index.toNat

theorem mark_ofHalves_low (marked : Bool) (bit low high : UInt8) :
    mark marked (Word.ofHalves bit 0) (Word.ofHalves low high)
      = Word.ofHalves (low ||| if marked then bit else 0) high := by
  cases marked <;> simp [mark, Word.ofHalves_or]

theorem mark_ofHalves_high (marked : Bool) (bit low high : UInt8) :
    mark marked (Word.ofHalves 0 bit) (Word.ofHalves low high)
      = Word.ofHalves low (high ||| if marked then bit else 0) := by
  cases marked <;> simp [mark, Word.ofHalves_or]

/-- Both registers first and then both marks make up the same byte as one operand after the
other. -/
theorem highByte_eq (operand1 operand2 : Operand) :
    (operand1.register.code ||| operand2.register.code <<< 4
        ||| (if operand1.indirect then Operand.indirectBit else 0))
      ||| (if operand2.indirect then (0x80 : UInt8) else 0)
      = operand1.toNibble ||| operand2.toNibble <<< 4 := by
  obtain ⟨register1, indirect1⟩ := operand1
  obtain ⟨register2, indirect2⟩ := operand2
  have moved : (register2.code ||| Operand.indirectBit) <<< 4 = register2.code <<< 4 ||| 0x80 := by
    cases register2 <;> rfl
  cases indirect1 <;> cases indirect2 <;>
    simp only [Operand.toNibble, moved, if_true, if_false, Bool.false_eq_true, UInt8.or_zero] <;>
    ac_rfl

theorem plainHeader_eq (opcode : Opcode) (operand1 operand2 : Operand) :
    plainHeader opcode operand1 operand2
      = .ok (Word.ofHalves opcode.code (operand1.toNibble ||| operand2.toNibble <<< 4)) := by
  have code : opcode.code.toUInt16 = Word.ofHalves opcode.code 0 := by
    apply UInt16.toNat.inj
    rw [Word.toNat_ofHalves, UInt8.toNat_toUInt16]
    rfl
  have field1 : shiftLeft16 (UInt16.ofNat operand1.register.index) 8
      = .ok (Word.ofHalves 0 operand1.register.code) := by
    cases operand1.register <;> rfl
  have field2 : shiftLeft16 (UInt16.ofNat operand2.register.index) 12
      = .ok (Word.ofHalves 0 (operand2.register.code <<< 4)) := by
    cases operand2.register <;> rfl
  have bit1 : indirectBit1 = Word.ofHalves 0 Operand.indirectBit := rfl
  have bit2 : indirectBit2 = Word.ofHalves 0 0x80 := rfl
  simp only [plainHeader, field1, field2, ok_bind, code, bit1, bit2, Word.ofHalves_or,
    mark_ofHalves_high, UInt8.or_zero, UInt8.zero_or, highByte_eq]
  rfl

/-- A word is written as its two bytes. -/
theorem encode_ofHalves (low high : UInt8) :
    LittleEndian.encode 2 (Word.ofHalves low high).toNat = [low, high] := by
  rw [← Word.decode_pair]
  exact LittleEndian.encode_decode [low, high]

theorem encode_eq (instruction : Instruction) :
    encode instruction = .ok instruction.encode := by
  obtain ⟨opcode, operand1, operand2, arguments⟩ := instruction
  have markA : bitA = Word.ofHalves Header.bitA 0 := rfl
  have markB : bitB = Word.ofHalves Header.bitB 0 := rfl
  simp only [encode, plainHeader_eq, ok_bind, markA, markB, mark_ofHalves_low, encode_ofHalves,
    indexBytes_eq]
  cases arguments with
  | generic wide immediate =>
      cases immediate with
      | none => rfl
      | some immediate =>
          have cut : LittleEndian.encode 2 immediate.toUInt16.toNat
              = LittleEndian.encode 2 immediate.toNat := by
            rw [UInt32.toNat_toUInt16]
            exact LittleEndian.encode_mod 2 _
          simp only [cut]
          rfl
  | move valueWidth indexWidth index1 index2 => rfl

/-! ## Listing -/

/-- The index that an operand shows, if it has one. -/
def optionalIndex (width : Width) (raw : Option UInt64) : Except Defect (Option NaturalIndex) :=
  match raw with
  | none => .ok none
  | some raw => do return some (← naturalIndex width raw)

@[simp] theorem optionalIndex_eq (width : Width) (raw : Option UInt64) :
    optionalIndex width raw = .ok (raw.map (NaturalIndex.decode width)) := by
  cases raw with
  | none => rfl
  | some raw => rw [optionalIndex, naturalIndex_eq]; rfl

/-- The plain value behind the operands, if the operand with the immediate is direct. -/
def plainValue (direct : Bool) (immediate : Option UInt32) : List Char :=
  match immediate with
  | some value => if direct then ' ' :: Numeral.hex value.toNat else []
  | none => []

/-- The operands of a generic instruction, and the plain value behind them. -/
def genericText (instruction : Instruction) (immediate : Option UInt32) :
    Except Defect (List Char) := do
  let operand1 := instruction.operand1
  let operand2 := instruction.operand2
  let displacement (carrier : Operand) : Except Defect (Option NaturalIndex) :=
    optionalIndex .word ((immediate.filter fun _ => carrier.indirect).map UInt32.toUInt64)
  match instruction.opcode with
  | .push | .pop =>
      return operand1.text (← displacement operand1)
        ++ plainValue (!operand1.indirect) immediate
  | _ =>
      return operand1.text none ++ [',', ' '] ++ operand2.text (← displacement operand2)
        ++ plainValue (!operand2.indirect) immediate

/-- The text of an instruction, every index of which is split for it. -/
def text (instruction : Instruction) : Except Defect (List Char) := do
  let mnemonic := instruction.opcode.mnemonic.toList
  match instruction.arguments with
  | .generic wide immediate =>
      if instruction.opcode = .nop ∨ instruction.opcode = .ret then
        return mnemonic
      else
        let width := if wide then 64 else 32
        return mnemonic ++ Numeral.decimal width ++ ' ' :: (← genericText instruction immediate)
  | .move _ indexWidth index1 index2 =>
      let operand1 := instruction.operand1.text (← optionalIndex indexWidth index1)
      let operand2 := instruction.operand2.text (← optionalIndex indexWidth index2)
      return mnemonic ++ ' ' :: operand1 ++ ',' :: ' ' :: operand2

/-- An immediate shows up once, as the displacement or as the plain value. -/
theorem text_append_plainValue (carrier : Operand) (immediate : Option UInt32) :
    carrier.text (((immediate.filter fun _ => carrier.indirect).map UInt32.toUInt64).map
        (NaturalIndex.decode .word)) ++ plainValue (!carrier.indirect) immediate
      = if carrier.indirect then
          carrier.text (immediate.map fun immediate =>
            NaturalIndex.decode .word immediate.toUInt64)
        else
          carrier.text none
            ++ (match immediate with
              | none => []
              | some immediate => ' ' :: Numeral.hex immediate.toNat) := by
  cases immediate with
  | none => cases carrier.indirect <;> simp [plainValue]
  | some value => cases indirect : carrier.indirect <;> simp [plainValue, Option.filter]

theorem genericText_eq (instruction : Instruction) :
    genericText instruction instruction.immediate? = .ok instruction.genericOperands := by
  have stack := text_append_plainValue instruction.operand1 instruction.immediate?
  have other := text_append_plainValue instruction.operand2 instruction.immediate?
  simp only [genericText, optionalIndex_eq, ok_bind, List.append_assoc, stack, other]
  unfold Instruction.genericOperands Instruction.carrierText Instruction.carrierIndex?
    Instruction.carrier
  cases instruction.opcode <;> simp only [List.append_assoc] <;> rfl

theorem text_eq (instruction : Instruction) : text instruction = .ok instruction.text := by
  obtain ⟨opcode, operand1, operand2, arguments⟩ := instruction
  cases arguments with
  | generic wide immediate =>
      have operands := genericText_eq ⟨opcode, operand1, operand2, .generic wide immediate⟩
      have width : Numeral.decimal (if wide then 64 else 32) = (Width.natural wide).text := by
        cases wide <;> rfl
      simp only [Instruction.immediate?] at operands
      simp only [text, operands, ok_bind, width]
      cases opcode with
      | nop | ret => rfl
      | _ => simp [Instruction.text]; rfl
  | move valueWidth indexWidth index1 index2 =>
      simp only [text, optionalIndex_eq, ok_bind]
      rfl

end Checked

end RegisterVM
