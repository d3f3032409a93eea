import RegisterVM.Proofs.Codec.WellFormed

/-!
# How much a decoder asks for

Any two bytes are a header, and a header tells how many bytes its instruction
takes. Decoding therefore fails in two ways only: there are not two bytes
(`decode_of_short`), or not as many as their header asks for
(`decode_of_truncated`). With that many it succeeds
(`exists_decode_of_complete`), and no byte behind them has a say in the outcome
(`decode_congr`).
-/

namespace RegisterVM

/-! ## Any two bytes are a header -/

theorem Register.ofCode_of_lt {raw : UInt8} (small : raw.toNat < 8) :
    ∃ register, ofCode raw = .ok register := by
  have named : ∀ number < 8, ∃ register ∈ all, register.code = UInt8.ofNat number := by decide
  obtain ⟨register, -, spelled⟩ := named raw.toNat small
  rw [UInt8.ofNat_toNat] at spelled
  exact ⟨register, spelled ▸ ofCode_code register⟩

/-- Three bits are left of a nibble to name its register, and they name one. -/
theorem Operand.exists_ofNibble (nibble : UInt8) : ∃ operand, ofNibble nibble = .ok operand := by
  have masked : (nibble &&& registerMask).toNat < 8 := by
    rw [UInt8.toNat_and]
    exact Nat.lt_succ_of_le Nat.and_le_right
  obtain ⟨register, found⟩ := Register.ofCode_of_lt masked
  exact ⟨_, by rw [ofNibble, found]⟩

theorem Header.exists_ofBytes (low high : UInt8) : ∃ header, ofBytes low high = .ok header := by
  obtain ⟨operand1, read1⟩ := Operand.exists_ofNibble high
  obtain ⟨operand2, read2⟩ := Operand.exists_ofNibble (high >>> 4)
  exact ⟨_, by rw [ofBytes, read1, read2]⟩

/-- Decoding two bytes and more is completing what their header starts. -/
theorem decode_eq_complete (low high : UInt8) (rest : List UInt8) :
    ∃ header, Header.ofBytes low high = .ok header
      ∧ instructionSize (headerWord (low :: high :: rest)) = header.size
      ∧ decode (low :: high :: rest) = header.complete (low :: high :: rest).length rest := by
  obtain ⟨header, read⟩ := Header.exists_ofBytes low high
  refine ⟨header, read, instructionSize_headerWord read, ?_⟩
  rw [decode, decodeWithin, read]

/-! ## Failing and succeeding -/

theorem decode_of_short {bytes : List UInt8} (short : bytes.length < Header.bytes) :
    decode bytes = .error (.truncated Header.bytes bytes.length) := by
  match bytes with
  | [] => rfl
  | [_] => rfl
  | low :: high :: rest => exact absurd short (by simp [Header.bytes])

theorem decode_of_truncated {bytes : List UInt8} (headed : Header.bytes ≤ bytes.length)
    (short : bytes.length < instructionSize (headerWord bytes)) :
    decode bytes = .error (.truncated (instructionSize (headerWord bytes)) bytes.length) := by
  match bytes with
  | [] => contradiction
  | [_] => contradiction
  | low :: high :: rest =>
      obtain ⟨header, -, size, decoding⟩ := decode_eq_complete low high rest
      rw [size] at short ⊢
      have missing : header.fields? rest = none := (header.fields?_eq_none_iff rest).mpr short
      rw [decoding, Header.complete, missing]

theorem exists_decode_of_complete {bytes : List UInt8} (headed : Header.bytes ≤ bytes.length)
    (enough : instructionSize (headerWord bytes) ≤ bytes.length) :
    ∃ instruction, decode bytes = .ok ⟨instruction, instructionSize (headerWord bytes)⟩ := by
  match bytes with
  | [] => contradiction
  | [_] => contradiction
  | low :: high :: rest =>
      obtain ⟨header, -, size, decoding⟩ := decode_eq_complete low high rest
      rw [size] at enough ⊢
      cases present : header.fields? rest with
      | none =>
          have short := (header.fields?_eq_none_iff rest).mp present
          exact absurd short (Nat.not_lt_of_le enough)
      | some fields =>
          refine ⟨⟨header.opcode, header.operand1, header.operand2,
            header.arguments fields.1 fields.2⟩, ?_⟩
          rw [decoding, Header.complete, present]

/-- No byte string is refused for an operand: it holds an instruction, or it is
too short for one. -/
theorem decode_cases (bytes : List UInt8) :
    (bytes.length < Header.bytes
      ∧ decode bytes = .error (.truncated Header.bytes bytes.length))
    ∨ (Header.bytes ≤ bytes.length ∧ bytes.length < instructionSize (headerWord bytes)
      ∧ decode bytes = .error (.truncated (instructionSize (headerWord bytes)) bytes.length))
    ∨ (Header.bytes ≤ bytes.length ∧ instructionSize (headerWord bytes) ≤ bytes.length
      ∧ ∃ instruction, decode bytes = .ok ⟨instruction, instructionSize (headerWord bytes)⟩) := by
  rcases Nat.lt_or_ge bytes.length Header.bytes with short | headed
  · exact .inl ⟨short, decode_of_short short⟩
  · rcases Nat.lt_or_ge bytes.length (instructionSize (headerWord bytes)) with short | enough
    · exact .inr (.inl ⟨headed, short, decode_of_truncated headed short⟩)
    · exact .inr (.inr ⟨headed, enough, exists_decode_of_complete headed enough⟩)

/-! ## Only the bytes of the instruction matter -/

/-- The bytes that the header asks for are enough to complete it, in a stream of
any length. -/
theorem Header.complete_congr {header : Header} {available available' : Nat}
    {rest rest' : List UInt8} {decoded : Decoded}
    (read : header.complete available rest = .ok decoded)
    (same : rest'.take (header.size - bytes) = rest.take (header.size - bytes)) :
    header.complete available' rest' = .ok decoded := by
  have enough : header.size ≤ bytes + (header.size - bytes) := by omega
  have sameFields : header.fields? rest' = header.fields? rest := by
    rw [← fields?_take enough, same, fields?_take enough]
  unfold complete at read ⊢
  rw [sameFields]
  cases present : header.fields? rest with
  | none =>
      rw [present] at read
      contradiction
  | some fields => rwa [present] at read

theorem decode_congr {bytes other : List UInt8} {decoded : Decoded}
    (read : decode bytes = .ok decoded)
    (same : other.take decoded.size = bytes.take decoded.size) : decode other = .ok decoded := by
  obtain ⟨atLeast, fits⟩ := decode_size read
  have sameLength := congrArg List.length same
  rw [List.length_take, List.length_take, Nat.min_eq_left fits] at sameLength
  match bytes, other with
  | [], _ => simp only [List.length_nil] at fits; omega
  | [_], _ => simp only [List.length_cons, List.length_nil] at fits; omega
  | _ :: _ :: _, [] => simp only [List.length_nil] at sameLength; omega
  | _ :: _ :: _, [_] => simp only [List.length_cons, List.length_nil] at sameLength; omega
  | _ :: _ :: rest, low :: high :: rest' =>
      -- Both start with one header, and agree on the fields that it announces.
      obtain ⟨count, size⟩ := Nat.exists_eq_add_of_le' atLeast
      simp only [size, List.take_succ_cons, List.cons.injEq] at same
      obtain ⟨rfl, rfl, sameRest⟩ := same
      obtain ⟨header, found, -, decoding⟩ := decode_eq_complete low high rest
      obtain ⟨header', foundAgain, -, decoding'⟩ := decode_eq_complete low high rest'
      obtain rfl := Except.ok.inj (found.symm.trans foundAgain)
      rw [decoding] at read
      have announced : header.size - Header.bytes = count := by
        rw [← (Header.complete_size read).1, size]
        rfl
      rw [decoding']
      exact Header.complete_congr read (by rw [announced, sameRest])

/-- **Decoding is exact.** It fails on fewer than two bytes, which it asks for,
and on fewer bytes than the header word tells, which it then asks for; in all
other cases it succeeds and takes just these. It never finds fault with an
operand. What it finds it also finds with anything, or nothing, in place of the
bytes behind. -/
theorem decode_exact (bytes : List UInt8) :
    (decode bytes = .error (.truncated Header.bytes bytes.length) ↔ bytes.length < Header.bytes)
    ∧ (Header.bytes ≤ bytes.length →
        (decode bytes = .error (.truncated (instructionSize (headerWord bytes)) bytes.length)
          ↔ bytes.length < instructionSize (headerWord bytes))
        ∧ ((∃ instruction, decode bytes = .ok ⟨instruction, instructionSize (headerWord bytes)⟩)
          ↔ instructionSize (headerWord bytes) ≤ bytes.length))
    ∧ (∀ code, decode bytes ≠ .error (.invalidOperand code))
    ∧ (∀ decoded, decode bytes = .ok decoded →
        ∀ trailing, decode (bytes.take decoded.size ++ trailing) = .ok decoded) := by
  refine ⟨⟨?_, decode_of_short⟩, ?_, ?_, ?_⟩
  · intro refused
    rcases decode_cases bytes with ⟨short, -⟩ | ⟨-, short, failed⟩ | ⟨-, -, _, read⟩
    · exact short
    · -- What is asked for may be two bytes again, which are then missing.
      rw [refused] at failed
      injection failed with sameFault
      injection sameFault with sameSize
      rwa [← sameSize] at short
    · rw [refused] at read
      contradiction
  · intro headed
    refine ⟨⟨?_, decode_of_truncated headed⟩, ?_, exists_decode_of_complete headed⟩
    · intro refused
      refine Nat.lt_of_not_le fun enough => ?_
      obtain ⟨instruction, read⟩ := exists_decode_of_complete headed enough
      rw [refused] at read
      contradiction
    · rintro ⟨instruction, read⟩
      exact (decode_size read).2
  · intro code refused
    rcases decode_cases bytes with ⟨-, failed⟩ | ⟨-, -, failed⟩ | ⟨-, -, _, read⟩
    · rw [refused] at failed
      injection failed with sameFault
      contradiction
    · rw [refused] at failed
      injection failed with sameFault
      contradiction
    · rw [refused] at read
      contradiction
  · intro decoded read trailing
    apply decode_congr read
    rw [List.take_left' (List.length_take_of_le (decode_size read).2)]

/-- A move with both of its quad indexes, complete with a byte behind it, and the
same one byte short. -/
theorem decode_exact_longest :
    let bytes : List UInt8 :=
      [0xe8, 0xa9, 0x01, 0, 0, 0, 0, 0, 0, 0x10, 0xff, 0xff, 0xff, 0xff, 0xff, 0xff, 0xff, 0xff]
    Header.bytes ≤ bytes.length
      ∧ instructionSize (headerWord bytes) = Header.longest
      ∧ instructionSize (headerWord (bytes.take 17)) = Header.longest
      ∧ (∃ instruction, decode bytes = .ok ⟨instruction, Header.longest⟩
          ∧ decode (bytes ++ [0x2a]) = .ok ⟨instruction, Header.longest⟩)
      ∧ decode (bytes.take 17) = .error (.truncated Header.longest 17) := by
  intro bytes
  have headed : Header.bytes ≤ bytes.length := by decide
  have size : instructionSize (headerWord bytes) = Header.longest := by decide
  have sizeShort : instructionSize (headerWord (bytes.take 17)) = Header.longest := by decide
  obtain ⟨-, complete, -, elsewhere⟩ := decode_exact bytes
  obtain ⟨instruction, read⟩ := (complete headed).2.mpr (by rw [size]; decide)
  rw [size] at read
  obtain ⟨-, short, -⟩ := decode_exact (bytes.take 17)
  have refused := (short (by decide)).1.mpr (by rw [sizeShort]; decide)
  rw [sizeShort] at refused
  exact ⟨headed, size, sizeShort, ⟨instruction, read, elsewhere _ read [0x2a]⟩, refused⟩

end RegisterVM
