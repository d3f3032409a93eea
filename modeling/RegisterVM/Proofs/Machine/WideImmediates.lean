import RegisterVM.Proofs.Machine.Distinctions
import RegisterVM.Proofs.Machine.Narrowing

/-!
# Wide immediates

An immediate of more than 16 bits that is added to a register is another one once it is
encoded and read back, and the source is then another number on every machine
(`AddsWideImmediate.sources`). A shift does not mind, as it takes its count modulo 32 or 64
(`AddsWideImmediate.effect_narrowed_of_shift`). For any other opcode there is a machine that
tells the two records apart, wherever operand 1 is (`AddsWideImmediate.exists_execute_ne`):
operand 1 is given a value from which different sources make different results, and only a
division asks for a value of its own. This is the border of what encoding preserves
(`execute_decode_encode`).
-/

namespace RegisterVM

/-- Read as a double, an immediate may stand for a number that is as near to zero as those of 16
bits. -/
theorem Width.near_or_far {width : Width} (natural : width = .double ∨ width = .quad) {number : Nat}
    (wide : 2 ^ 16 ≤ number) (below : number < 2 ^ 32) :
    (width = .double ∧ 2 ^ 32 - 2 ^ 16 ≤ number)
      ∨ 2 ^ 16 ≤ (twosComplement width.bits number).natAbs := by
  rcases natural with rfl | rfl
  · by_cases near : 2 ^ 32 - 2 ^ 16 ≤ number
    · exact .inl ⟨rfl, near⟩
    · refine .inr ?_
      show _ ≤ (twosComplement 32 number).natAbs
      unfold twosComplement
      split <;> omega
  · refine .inr ?_
    show _ ≤ (twosComplement 64 number).natAbs
    rw [twosComplement, if_pos (by omega)]
    exact wide

namespace Instruction

theorem natural_operationWidth (instruction : Instruction) :
    instruction.operationWidth = .double ∨ instruction.operationWidth = .quad := by
  rw [operationWidth]
  cases instruction.isWide
  · exact .inl rfl
  · exact .inr rfl

theorem bits_operationWidth (instruction : Instruction) :
    instruction.operationWidth.bits = 32 ∨ instruction.operationWidth.bits = 64 := by
  rcases instruction.natural_operationWidth with width | width
  · exact .inl (by rw [width]; rfl)
  · exact .inr (by rw [width]; rfl)

/-- A binary instruction and the narrowed one are told apart where their sources come to different
results. -/
theorem execute_narrowed_ne_of_binary {instruction : Instruction} {machine : Machine}
    {op : BinaryOp} {left source source' : UInt64} (opcode : instruction.opcode = .binary op)
    (readLeft : (instruction.operand1.location machine none).read machine
      instruction.operationWidth = .ok left)
    (read : instruction.carrierValue machine = .ok source)
    (read' : instruction.narrowed.carrierValue machine = .ok source')
    (differ : op.eval instruction.operationWidth left source'
      ≠ op.eval instruction.operationWidth left source) :
    execute instruction.narrowed machine ≠ execute instruction machine := by
  have effect := effect_binary opcode readLeft read
  have effect' : instruction.narrowed.effect machine = _ :=
    effect_binary opcode (by rw [operationWidth_narrowed]; exact readLeft) read'
  rw [operationWidth_narrowed] at effect'
  exact execute_ne_of_stored effect' effect (Location.check_of_read readLeft) (fun _ => rfl)
    (fun _ computed => BinaryOp.toNat_lt_of_eval computed)
    (fun _ computed => BinaryOp.toNat_lt_of_eval computed) differ

namespace AddsWideImmediate

variable {instruction : Instruction} (adds : instruction.AddsWideImmediate)

include adds

/-! ## The sources -/

/-- What is added to the register, on every machine. -/
theorem summands :
    ∃ summand summand' : UInt64, 2 ^ 16 ≤ summand.toNat ∧ summand.toNat < 2 ^ 32
      ∧ summand'.toNat = summand.toNat % 2 ^ 16
      ∧ ∀ machine : Machine,
        instruction.carrierValue machine
            = .ok (instruction.operationWidth.truncate
              (machine.register instruction.carrier.register + summand))
          ∧ instruction.narrowed.carrierValue machine
            = .ok (instruction.operationWidth.truncate
              (machine.register instruction.carrier.register + summand')) := by
  obtain ⟨-, direct, value, given, wide⟩ := adds
  have direct' : instruction.narrowed.carrier.indirect = false := direct
  refine ⟨value.toUInt64, (UInt32.ofNat (value.toNat % 2 ^ 16)).toUInt64, wide, value.toNat_lt,
    toNat_ofNat_mod_word value, fun machine => ?_⟩
  rw [carrierValue_of_direct direct, carrierValue_of_direct direct', operationWidth_narrowed,
    immediate?_narrowed, Option.mem_def.mp given]
  exact ⟨rfl, rfl⟩

/-- On every machine the two sources are different numbers that the width has room for. -/
theorem sources (machine : Machine) :
    ∃ source source', instruction.carrierValue machine = .ok source
      ∧ instruction.narrowed.carrierValue machine = .ok source' ∧ source' ≠ source
      ∧ source.toNat < 2 ^ instruction.operationWidth.bits
      ∧ source'.toNat < 2 ^ instruction.operationWidth.bits := by
  obtain ⟨summand, summand', wide, below, cut, reads⟩ := adds.summands
  obtain ⟨read, read'⟩ := reads machine
  refine ⟨_, _, read, read', ?_, Width.toNat_truncate_lt _ _, Width.toNat_truncate_lt _ _⟩
  rw [Ne, Width.truncate_eq_iff, UInt64.toNat_add, UInt64.toNat_add, cut]
  rcases instruction.bits_operationWidth with bits | bits
  · rw [bits]
    omega
  · rw [bits]
    omega

/-- As counts of a shift they are the same, since 32 and 64 go into what the immediates differ
by. -/
theorem effect_narrowed_of_shift {op : BinaryOp} (opcode : instruction.opcode = .binary op)
    (shifts : op = .shl ∨ op = .shr) (machine : Machine) :
    instruction.narrowed.effect machine = instruction.effect machine := by
  obtain ⟨summand, summand', -, -, cut, reads⟩ := adds.summands
  obtain ⟨read, read'⟩ := reads machine
  have opcode' : instruction.narrowed.opcode = .binary op := opcode
  unfold effect
  simp only [opcode, opcode', read, read', operationWidth_narrowed]
  generalize machine.register instruction.carrier.register = base
  have sameCount :
      (instruction.operationWidth.truncate (base + summand')).toNat
          % instruction.operationWidth.bits
        = (instruction.operationWidth.truncate (base + summand)).toNat
          % instruction.operationWidth.bits := by
    rw [Width.toNat_truncate, Width.toNat_truncate, UInt64.toNat_add, UInt64.toNat_add, cut]
    rcases instruction.bits_operationWidth with bits | bits
    · rw [bits]
      omega
    · rw [bits]
      omega
  simp only [bind, Except.bind, BinaryOp.eval_shift_congr shifts sameCount]
  rfl

/-! ## Telling the records apart -/

theorem exists_execute_ne_of_unary {op : UnaryOp} (opcode : instruction.opcode = .unary op) :
    ∃ machine, execute instruction.narrowed machine ≠ execute instruction machine := by
  let machine := instruction.operand1.probe instruction.operationWidth 0
  obtain ⟨source, source', read, read', differ, room, room'⟩ := adds.sources machine
  have fits := Location.check_of_read (instruction.operand1.read_probe instruction.operationWidth 0)
  have effect := effect_unary opcode read fits
  have effect' : instruction.narrowed.effect machine = _ :=
    effect_unary opcode read' (by rw [operationWidth_narrowed]; exact fits)
  rw [operationWidth_narrowed] at effect'
  refine ⟨machine, execute_ne_of_stored effect' effect fits (fun _ => rfl) ?_ ?_ ?_⟩
  · rintro _ ⟨⟩
    exact op.toNat_eval_lt _ _
  · rintro _ ⟨⟩
    exact op.toNat_eval_lt _ _
  · intro same
    exact differ (UnaryOp.eval_inj room' room (Except.ok.inj same))

theorem exists_execute_ne_of_push (opcode : instruction.opcode = .push) :
    ∃ machine, execute instruction.narrowed machine ≠ execute instruction machine := by
  let machine := Machine.filled 8 (.zeroed 8)
  obtain ⟨source, source', read, read', differ, room, room'⟩ := adds.sources machine
  have fits : (Location.memory (machine.register .r0
      - UInt64.ofNat instruction.operationWidth.bytes)).check machine
        instruction.operationWidth = .ok () := by
    rw [Machine.register_filled]
    rcases instruction.natural_operationWidth with width | width
    · rw [width]
      rfl
    · rw [width]
      rfl
  have effect := effect_push opcode read fits
  have effect' : instruction.narrowed.effect machine = _ :=
    effect_push opcode read' (by rw [operationWidth_narrowed]; exact fits)
  rw [operationWidth_narrowed] at effect'
  refine ⟨machine, execute_ne_of_stored effect' effect fits (fun _ => rfl) ?_ ?_ ?_⟩
  · rintro _ ⟨⟩
    exact room'
  · rintro _ ⟨⟩
    exact room
  · intro same
    exact differ (Except.ok.inj same)

theorem exists_execute_ne_of_whole {op : BinaryOp} (opcode : instruction.opcode = .binary op)
    (whole : op.divides = false) (unmoved : op ≠ .shl ∧ op ≠ .shr) :
    ∃ machine, execute instruction.narrowed machine ≠ execute instruction machine := by
  let machine := instruction.operand1.probe instruction.operationWidth op.revealing
  obtain ⟨source, source', read, read', differ, room, room'⟩ := adds.sources machine
  exact ⟨machine, execute_narrowed_ne_of_binary opcode (instruction.operand1.read_probe _ _) read
    read' (BinaryOp.eval_revealing_ne whole unmoved room' room differ)⟩

/-! ### Divisions -/

/-- Where one of the two divides by zero, the other does not. -/
theorem execute_ne_of_zero {op : BinaryOp} (opcode : instruction.opcode = .binary op)
    (divides : op.divides) {machine : Machine} {left : UInt64}
    (readLeft : (instruction.operand1.location machine none).read machine
      instruction.operationWidth = .ok left)
    (zero : instruction.carrierValue machine = .ok 0
      ∨ instruction.narrowed.carrierValue machine = .ok 0) :
    execute instruction.narrowed machine ≠ execute instruction machine := by
  obtain ⟨source, source', read, read', differ, room, room'⟩ := adds.sources machine
  have left_lt : left.toNat < 2 ^ instruction.operationWidth.bits := by
    rw [Operand.toNat_read readLeft]
    exact Operand.number_lt _ _ _ _
  refine execute_narrowed_ne_of_binary opcode readLeft read read' ?_
  rcases zero with zero | zero
  · obtain rfl := Except.ok.inj (read.symm.trans zero)
    exact (BinaryOp.eval_zero_ne divides left_lt room' differ).symm
  · obtain rfl := Except.ok.inj (read'.symm.trans zero)
    exact BinaryOp.eval_zero_ne divides left_lt room differ.symm

/-- With operand 1 in a register, any register may hold what makes the divisor zero. -/
theorem exists_execute_ne_of_divided_direct {op : BinaryOp}
    (opcode : instruction.opcode = .binary op) (divides : op.divides)
    (direct : instruction.operand1.indirect = false) :
    ∃ machine, execute instruction.narrowed machine ≠ execute instruction machine := by
  obtain ⟨summand, summand', -, -, -, reads⟩ := adds.summands
  let machine := Machine.filled (-summand) (.zeroed 0)
  have zero : instruction.carrierValue machine = .ok 0 := by
    rw [(reads machine).1, Machine.register_filled, UInt64.add_left_neg]
    cases instruction.operationWidth <;> rfl
  have readLeft := congrArg (·.read machine instruction.operationWidth)
    (Operand.location_of_direct direct machine none)
  exact ⟨machine, adds.execute_ne_of_zero opcode divides readLeft (.inl zero)⟩

/-- With operand 1 in memory, the register that makes the divisor zero must hold the address of
operand 1 as well. Such an address is a low one if the immediate is near to zero. -/
theorem exists_execute_ne_of_divided_near {op : BinaryOp}
    (opcode : instruction.opcode = .binary op) (divides : op.divides)
    (indirect : instruction.operand1.indirect) {summand : UInt64}
    (reads : ∀ machine : Machine, instruction.carrierValue machine
      = .ok (instruction.operationWidth.truncate
        (machine.register instruction.carrier.register + summand)))
    (width : instruction.operationWidth = .double) (near : 2 ^ 32 - 2 ^ 16 ≤ summand.toNat)
    (below : summand.toNat < 2 ^ 32) :
    ∃ machine, execute instruction.narrowed machine ≠ execute instruction machine := by
  obtain ⟨base, base_eq⟩ : ∃ base : UInt64, base.toNat = 2 ^ 32 - summand.toNat :=
    ⟨.ofNat (2 ^ 32 - summand.toNat),
      UInt64.toNat_ofNat_of_lt (Nat.lt_of_le_of_lt (Nat.sub_le _ _) (by decide))⟩
  let machine := Machine.filled base (.zeroed 0x10008)
  have zero : instruction.carrierValue machine = .ok 0 := by
    rw [reads, Machine.register_filled, width]
    refine congrArg Except.ok (UInt64.toNat.inj ?_)
    rw [Width.toNat_truncate, UInt64.toNat_add, base_eq, Nat.sub_add_cancel (Nat.le_of_lt below)]
    rfl
  have fits : (instruction.operand1.location machine none).check machine .double = .ok () := by
    have size : machine.memory.size = 0x10008 := Array.size_replicate
    rw [Operand.location, if_pos indirect, Machine.register_filled, Location.check, Memory.check,
      if_pos]
    · rfl
    · show base.toNat + 4 ≤ machine.memory.size
      omega
  obtain ⟨left, readLeft⟩ := Location.exists_read fits
  rw [← width] at readLeft
  exact ⟨machine, adds.execute_ne_of_zero opcode divides readLeft (.inl zero)⟩

/-- Any other immediate is of greater magnitude than what is left of it, and does not go into
that. -/
theorem exists_execute_ne_of_divided_far {op : BinaryOp}
    (opcode : instruction.opcode = .binary op) (divides : op.divides)
    (indirect : instruction.operand1.indirect) {summand summand' : UInt64}
    (reads : ∀ machine : Machine,
      instruction.carrierValue machine
          = .ok (instruction.operationWidth.truncate
            (machine.register instruction.carrier.register + summand))
        ∧ instruction.narrowed.carrierValue machine
          = .ok (instruction.operationWidth.truncate
            (machine.register instruction.carrier.register + summand')))
    (summand_lt : summand.toNat < 2 ^ 32) (summand'_lt : summand'.toNat < 2 ^ 16)
    (far : 2 ^ 16 ≤ (twosComplement instruction.operationWidth.bits summand.toNat).natAbs) :
    ∃ machine, execute instruction.narrowed machine ≠ execute instruction machine := by
  have room : 2 ^ 32 ≤ 2 ^ instruction.operationWidth.bits
      ∧ 2 ^ 16 ≤ 2 ^ (instruction.operationWidth.bits - 1) := by
    rcases instruction.bits_operationWidth with bits | bits
    · rw [bits]
      decide
    · rw [bits]
      decide
  let machine := instruction.operand1.probe instruction.operationWidth summand'
  have readLeft := instruction.operand1.read_probe instruction.operationWidth summand'
  obtain ⟨read, read'⟩ := reads machine
  rw [Operand.register_probe, if_pos indirect, UInt64.zero_add] at read read'
  rw [Width.truncate_of_lt (by omega)] at readLeft read read'
  refine ⟨machine, ?_⟩
  by_cases zero : summand' = 0
  · rw [zero] at read'
    exact adds.execute_ne_of_zero opcode divides readLeft (.inr read')
  · have positive : 0 < summand'.toNat :=
      Nat.pos_of_ne_zero fun none => zero (UInt64.toNat.inj none)
    exact execute_narrowed_ne_of_binary opcode readLeft read read'
      (BinaryOp.eval_self_ne divides positive (by omega) (by omega) (by omega))

theorem exists_execute_ne_of_divided {op : BinaryOp} (opcode : instruction.opcode = .binary op)
    (divides : op.divides) :
    ∃ machine, execute instruction.narrowed machine ≠ execute instruction machine := by
  cases indirect : instruction.operand1.indirect with
  | false => exact adds.exists_execute_ne_of_divided_direct opcode divides indirect
  | true =>
      obtain ⟨summand, summand', wide, below, cut, reads⟩ := adds.summands
      have cut_lt : summand'.toNat < 2 ^ 16 := cut ▸ Nat.mod_lt _ (by decide)
      rcases Width.near_or_far instruction.natural_operationWidth wide below with
        ⟨width, near⟩ | far
      · exact adds.exists_execute_ne_of_divided_near opcode divides indirect
          (fun machine => (reads machine).1) width near below
      · exact adds.exists_execute_ne_of_divided_far opcode divides indirect reads below cut_lt far

/-! ### All opcodes -/

theorem exists_execute_ne
    (unmoved : instruction.opcode ≠ .binary .shl ∧ instruction.opcode ≠ .binary .shr) :
    ∃ machine, execute instruction.narrowed machine ≠ execute instruction machine := by
  have reads := adds.reads
  cases opcode : instruction.opcode with
  | unary op => exact adds.exists_execute_ne_of_unary opcode
  | push => exact adds.exists_execute_ne_of_push opcode
  | binary op =>
      rw [opcode] at unmoved
      cases divides : op.divides with
      | true => exact adds.exists_execute_ne_of_divided opcode divides
      | false =>
          exact adds.exists_execute_ne_of_whole opcode divides
            ⟨fun same => unmoved.1 (congrArg _ same), fun same => unmoved.2 (congrArg _ same)⟩
  | nop | ret | pop | move form =>
      rw [opcode] at reads
      contradiction

/-- The records are told apart, unless they shift. -/
theorem execute_narrowed_iff :
    (∀ machine, execute instruction.narrowed machine = execute instruction machine)
      ↔ instruction.opcode = .binary .shl ∨ instruction.opcode = .binary .shr := by
  constructor
  · intro same
    by_contra moved
    obtain ⟨machine, differ⟩ := adds.exists_execute_ne (not_or.mp moved)
    exact differ (same machine)
  · rintro (opcode | opcode) machine
    · exact execute_congr rfl (adds.effect_narrowed_of_shift opcode (.inl rfl) machine)
    · exact execute_congr rfl (adds.effect_narrowed_of_shift opcode (.inr rfl) machine)

end AddsWideImmediate

end Instruction

/-- **Encoding preserves meaning.** A record with arguments of its opcode's own kind, of any
numbers, is read back from its encoding with these numbers reduced to the room that they are
encoded in, and what is read back does on every machine what the record does: it has the same
outcome or fault, and leaves the same machine. The one exception is an immediate of more than 16
bits that is added to the register of a direct source; there this holds of the shifts alone, and for
every other opcode some machine tells the two apart. -/
theorem execute_decode_encode (instruction : Instruction) (matched : instruction.Matched)
    (trailing : List UInt8) :
    decode (instruction.encode ++ trailing)
        = .ok ⟨instruction.narrowed, instruction.encode.length⟩
      ∧ (¬ instruction.AddsWideImmediate →
          ∀ machine, execute instruction.narrowed machine = execute instruction machine)
      ∧ (instruction.AddsWideImmediate →
          ((∀ machine, execute instruction.narrowed machine = execute instruction machine)
            ↔ instruction.opcode = .binary .shl ∨ instruction.opcode = .binary .shr)) := by
  refine ⟨decode_encode_append_of_matched matched trailing, ?_, ?_⟩
  · intro narrow machine
    exact execute_congr rfl (Instruction.effect_narrowed matched narrow machine)
  · intro adds
    exact adds.execute_narrowed_iff

/-- Indexes that are too wide for a move, and one immediate that displaces a source, is added to
another, and is added to a count. -/
theorem execute_decode_encode_seventeen_bits :
    let copy : Instruction :=
      { opcode := .move .qd
        operand1 := ⟨.r1, true⟩
        operand2 := ⟨.r2, false⟩
        arguments := .move .quad .double (some 0x510000123) (some 0xffffffff80000001) }
    let copyRead : Instruction :=
      { copy with arguments := .move .quad .double (some 0x10000123) (some 0x80000001) }
    let wide (op : BinaryOp) (indirect : Bool) : Instruction :=
      ⟨.binary op, ⟨.r1, false⟩, ⟨.r2, indirect⟩, .generic false (some 0x10008)⟩
    let wideRead (op : BinaryOp) (indirect : Bool) : Instruction :=
      { wide op indirect with arguments := .generic false (some 8) }
    decode (copy.encode ++ [0xff]) = .ok ⟨copyRead, 10⟩
      ∧ (∀ machine, execute copyRead machine = execute copy machine)
      ∧ decode ((wide .add true).encode ++ []) = .ok ⟨wideRead .add true, 4⟩
      ∧ (∀ machine, execute (wideRead .add true) machine = execute (wide .add true) machine)
      ∧ decode ((wide .add false).encode ++ []) = .ok ⟨wideRead .add false, 4⟩
      ∧ (¬ ∀ machine, execute (wideRead .add false) machine = execute (wide .add false) machine)
      ∧ (∀ machine, execute (wideRead .shl false) machine = execute (wide .shl false) machine) := by
  intro copy copyRead wide wideRead
  have copyMatched : copy.Matched := ⟨rfl, rfl⟩
  have copyNarrow : ¬ copy.AddsWideImmediate := fun adds => absurd adds.reads (by decide)
  have matched (op : BinaryOp) (indirect : Bool) : (wide op indirect).Matched := trivial
  have displaces : ¬ (wide .add true).AddsWideImmediate := fun adds =>
    absurd adds.direct (by decide)
  have adds (op : BinaryOp) : (wide op false).AddsWideImmediate :=
    ⟨rfl, rfl, 0x10008, rfl, by decide⟩
  obtain ⟨copyDecoded, copyKept, -⟩ := execute_decode_encode copy copyMatched [0xff]
  obtain ⟨displacedDecoded, displacedKept, -⟩ :=
    execute_decode_encode (wide .add true) (matched .add true) []
  obtain ⟨addedDecoded, -, addedKept⟩ :=
    execute_decode_encode (wide .add false) (matched .add false) []
  obtain ⟨-, -, shiftedKept⟩ := execute_decode_encode (wide .shl false) (matched .shl false) []
  refine ⟨copyDecoded, copyKept copyNarrow, displacedDecoded, displacedKept displaces,
    addedDecoded, ?_, (shiftedKept (adds .shl)).mpr (.inl rfl)⟩
  intro same
  have moves := (addedKept (adds .add)).mp same
  revert moves
  decide

end RegisterVM
