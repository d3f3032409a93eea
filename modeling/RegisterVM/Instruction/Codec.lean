import RegisterVM.Instruction.Header
import RegisterVM.Word.LittleEndian

/-!
# Encoded instructions

`Instruction.encode` writes an instruction as bytes and `decode` reads one off
the front of a byte string. Writing goes by the kind of the arguments, reading
by the class of the opcode.

An instruction is known to be complete once its size is known, which is at most
`Header.longest`. `decodeWithin` therefore reads from a window onto a longer
stream, of which it needs no more than the length; `decodeWithin_take`
says that a window of `Header.longest` bytes is enough.
-/

namespace RegisterVM

/-- An instruction read off the front of a byte string, and how many bytes it
takes there. -/
structure Decoded where
  instruction : Instruction
  size : Nat
  deriving DecidableEq

/-! ## Reading -/

/-- Takes a field off the front if it is announced. There is none if the bytes
run out first. -/
def field? (announced : Bool) (width : Width) (bytes : List UInt8) :
    Option (Option Nat × List UInt8) :=
  if announced then
    (LittleEndian.decodeFront? width.bytes bytes).map fun (value, rest) => (some value, rest)
  else
    some (none, bytes)

/-- The two fields that the header announces, read off the bytes behind it. -/
def Header.fields? (header : Header) (bytes : List UInt8) : Option (Option Nat × Option Nat) :=
  match field? header.flagA header.opcode.fieldWidth bytes with
  | none => none
  | some (first, rest) =>
      match field? (header.opcode.hasSecondField && header.flagB) header.opcode.fieldWidth rest with
      | none => none
      | some (second, _) => some (first, second)

/-- What the fields mean behind this header: the indexes of a move's operands,
in their order, or the immediate of any other opcode. -/
def Header.arguments (header : Header) (first second : Option Nat) : Arguments :=
  match header.opcode with
  | .move form =>
      .move form.valueWidth form.indexWidth (first.map UInt64.ofNat) (second.map UInt64.ofNat)
  | _ => .generic header.flagB (first.map UInt32.ofNat)

/-- Completes the instruction that the header starts, in a stream of `available`
bytes of which `rest` holds the first ones behind the header. -/
def Header.complete (header : Header) (available : Nat) (rest : List UInt8) :
    Except DecodeFault Decoded :=
  match header.fields? rest with
  | none => .error (.truncated header.size available)
  | some (first, second) =>
      .ok
        { instruction :=
            { opcode := header.opcode
              operand1 := header.operand1
              operand2 := header.operand2
              arguments := header.arguments first second }
          size := header.size }

/-- Reads the instruction at the front of a stream of `available` bytes, of
which `window` holds the first ones. -/
def decodeWithin (available : Nat) (window : List UInt8) : Except DecodeFault Decoded :=
  match window with
  | low :: high :: rest =>
      match Header.ofBytes low high with
      | .error fault => .error fault
      | .ok header => header.complete available rest
  | _ => .error (.truncated Header.bytes available)

/-- Reads the instruction at the front of `bytes`. Bytes behind it are
ignored. -/
def decode (bytes : List UInt8) : Except DecodeFault Decoded :=
  decodeWithin bytes.length bytes

/-! ## Writing -/

/-- The flag A that the arguments set. -/
def Arguments.flagA : Arguments → Bool
  | generic _ immediate => immediate.isSome
  | move _ _ index1 _ => index1.isSome

/-- The flag B that the arguments set. -/
def Arguments.flagB : Arguments → Bool
  | generic wide _ => wide
  | move _ _ _ index2 => index2.isSome

/-- The low bytes of a field, if it is there. -/
def encodeField (width : Width) (value : Option Nat) : List UInt8 :=
  match value with
  | none => []
  | some value => LittleEndian.encode width.bytes value

/-- The bytes behind the header: the low 16 bits of an immediate, or as much of
each index as its width has room for. -/
def Arguments.encode : Arguments → List UInt8
  | generic _ immediate => encodeField .word (immediate.map UInt32.toNat)
  | move _ indexWidth index1 index2 =>
      encodeField indexWidth (index1.map UInt64.toNat)
        ++ encodeField indexWidth (index2.map UInt64.toNat)

namespace Instruction

/-- The header of the instruction. -/
def header (instruction : Instruction) : Header :=
  { opcode := instruction.opcode
    flagA := instruction.arguments.flagA
    flagB := instruction.arguments.flagB
    operand1 := instruction.operand1
    operand2 := instruction.operand2 }

/-- The instruction as bytes. -/
def encode (instruction : Instruction) : List UInt8 :=
  instruction.header.lowByte :: instruction.header.highByte :: instruction.arguments.encode

end Instruction

/-! ## How much is read -/

/-- A field is there exactly if its bytes are, and is then taken off the
front. -/
theorem field?_eq_some {announced : Bool} {width : Width} {bytes rest : List UInt8}
    {value : Option Nat} (read : field? announced width bytes = some (value, rest)) :
    announced.toNat * width.bytes ≤ bytes.length
      ∧ rest = bytes.drop (announced.toNat * width.bytes) := by
  cases announced with
  | false =>
      simp only [field?, Bool.false_eq_true, if_false, Option.some.injEq, Prod.mk.injEq] at read
      simp [read.2]
  | true =>
      simp only [field?, if_true, LittleEndian.decodeFront?] at read
      split at read
      next fits =>
        simp only [Option.map_some, Option.some.injEq, Prod.mk.injEq] at read
        simpa using ⟨fits, read.2.symm⟩
      next => simp at read

/-- A field that is missing was announced, and its bytes run out. -/
theorem field?_eq_none {announced : Bool} {width : Width} {bytes : List UInt8}
    (missing : field? announced width bytes = none) :
    bytes.length < announced.toNat * width.bytes := by
  cases announced with
  | false => simp [field?] at missing
  | true =>
      simp only [field?, if_true, LittleEndian.decodeFront?] at missing
      split at missing
      next => simp at missing
      next short => simpa using short

/-- The fields are missing exactly if the bytes behind the header are fewer than
its size asks for. -/
theorem Header.fields?_eq_none_iff (header : Header) (rest : List UInt8) :
    header.fields? rest = none ↔ rest.length + bytes < header.size := by
  simp only [size, sizeOf, Nat.add_mul]
  unfold fields?
  split
  next missing =>
    have := field?_eq_none missing
    simp only [true_iff]
    omega
  next first rest1 read =>
    obtain ⟨fits, rfl⟩ := field?_eq_some read
    split
    next missing =>
      have := field?_eq_none missing
      simp only [List.length_drop] at this
      simp only [true_iff]
      omega
    next second rest2 read2 =>
      have := (field?_eq_some read2).1
      simp only [List.length_drop] at this
      simp only [reduceCtorEq, false_iff]
      omega

/-- What the header starts takes its size, of which the bytes behind the header
hold all the rest. -/
theorem Header.complete_size {header : Header} {available : Nat} {rest : List UInt8}
    {decoded : Decoded} (read : header.complete available rest = .ok decoded) :
    decoded.size = header.size ∧ header.size ≤ bytes + rest.length := by
  unfold complete at read
  split at read
  next => contradiction
  next first second present =>
    injection read with same
    subst same
    refine ⟨rfl, Nat.le_of_not_lt fun short => ?_⟩
    rw [Nat.add_comm, ← fields?_eq_none_iff, present] at short
    contradiction

/-- What is read is a header and the fields that it announces. -/
theorem decodeWithin_eq_ok {available : Nat} {window : List UInt8} {decoded : Decoded}
    (read : decodeWithin available window = .ok decoded) :
    ∃ low high rest header first second, window = low :: high :: rest
      ∧ Header.ofBytes low high = .ok header ∧ header.fields? rest = some (first, second)
      ∧ decoded =
        ⟨⟨header.opcode, header.operand1, header.operand2, header.arguments first second⟩,
          header.size⟩ := by
  unfold decodeWithin at read
  split at read
  next low high rest =>
    split at read
    next => contradiction
    next header found =>
      unfold Header.complete at read
      split at read
      next => contradiction
      next first second present =>
        injection read with same
        exact ⟨low, high, rest, header, first, second, rfl, found, present, same.symm⟩
  next => contradiction

/-- An instruction takes at least a header, and no more than the window
holds. -/
theorem decodeWithin_size {available : Nat} {window : List UInt8} {decoded : Decoded}
    (read : decodeWithin available window = .ok decoded) :
    2 ≤ decoded.size ∧ decoded.size ≤ window.length := by
  obtain ⟨low, high, rest, header, first, second, rfl, -, present, rfl⟩ := decodeWithin_eq_ok read
  refine ⟨header.two_le_size, Nat.le_of_not_lt fun short => ?_⟩
  have missing := (header.fields?_eq_none_iff rest).mpr short
  rw [present] at missing
  contradiction

theorem decode_size {bytes : List UInt8} {decoded : Decoded} (read : decode bytes = .ok decoded) :
    2 ≤ decoded.size ∧ decoded.size ≤ bytes.length :=
  decodeWithin_size read

/-! ## How little is enough -/

/-- A field is read from any front part of the bytes that it lies in. -/
theorem field?_take {announced : Bool} {width : Width} {bytes : List UInt8} {count : Nat}
    (enough : announced.toNat * width.bytes ≤ count) :
    field? announced width (bytes.take count)
      = (field? announced width bytes).map fun (value, rest) =>
          (value, rest.take (count - announced.toNat * width.bytes)) := by
  cases announced with
  | false => simp [field?]
  | true =>
      rw [Bool.toNat_true, Nat.one_mul] at enough ⊢
      simp only [field?, if_true, LittleEndian.decodeFront?, List.length_take, List.take_take,
        Nat.min_eq_left enough, List.drop_take]
      by_cases fits : width.bytes ≤ bytes.length
      · rw [if_pos (by omega), if_pos fits]
        rfl
      · rw [if_neg (by omega), if_neg fits]
        rfl

theorem Header.fields?_take {header : Header} {rest : List UInt8} {count : Nat}
    (enough : header.size ≤ bytes + count) :
    header.fields? (rest.take count) = header.fields? rest := by
  simp only [size, sizeOf, Nat.add_mul] at enough
  unfold fields?
  rw [field?_take (by omega)]
  cases field? header.flagA header.opcode.fieldWidth rest with
  | none => rfl
  | some first =>
      simp only [Option.map_some]
      rw [field?_take (by omega)]
      cases field? (header.opcode.hasSecondField && header.flagB) header.opcode.fieldWidth
        first.2 with
      | none => rfl
      | some second => rfl

/-- A window of the longest instruction's size shows as much as the whole
stream. -/
theorem decodeWithin_take (available : Nat) (bytes : List UInt8) :
    decodeWithin available (bytes.take Header.longest) = decodeWithin available bytes := by
  match bytes with
  | [] => rfl
  | [_] => rfl
  | low :: high :: rest =>
      have front : (low :: high :: rest).take Header.longest = low :: high :: rest.take 16 := rfl
      rw [front]
      simp only [decodeWithin]
      cases Header.ofBytes low high with
      | error fault => rfl
      | ok header =>
          have enough : header.size ≤ Header.bytes + 16 := header.size_le_longest
          simp only [Header.complete, Header.fields?_take enough]

end RegisterVM
