import RegisterVM.Proofs.Machine.Results

/-!
# How instructions are told apart

Two instructions are told apart by a machine on which they do not come to the same.
That is so where they come to different values at one place (`execute_ne_of_stored`), and
different sources come to different values of an operation, if its left operand is chosen
well: most operations give the right operand back, up to its sign, from one left operand
(`BinaryOp.eval_revealing_ne`), and a division tells zero and a number apart from any
other divisor (`BinaryOp.eval_zero_ne`, `BinaryOp.eval_self_ne`). `Operand.probe` is a
machine on which operand 1 is read as that left operand.
-/

namespace RegisterVM

/-! ## Results that tell operands apart -/

/-- Numbers that the width has room for are the same if they are so up to the room. -/
theorem Width.eq_of_modEq {width : Width} {word other : UInt64}
    (fits : word.toNat < 2 ^ width.bits) (fits' : other.toNat < 2 ^ width.bits)
    (same : (word.toNat : Int) ≡ other.toNat [ZMOD 2 ^ width.bits]) : word = other := by
  have equal := same.eq
  rw [Int.emod_eq_of_lt (Int.natCast_nonneg _) (by exact_mod_cast fits),
    Int.emod_eq_of_lt (Int.natCast_nonneg _) (by exact_mod_cast fits')] at equal
  exact UInt64.toNat.inj (by exact_mod_cast equal)

theorem UnaryOp.eval_inj {op : UnaryOp} {width : Width} {word other : UInt64}
    (fits : word.toNat < 2 ^ width.bits) (fits' : other.toNat < 2 ^ width.bits)
    (same : op.eval width word = op.eval width other) : word = other := by
  have equal : op.exact width.bits word.toNat ≡ op.exact width.bits other.toNat
      [ZMOD 2 ^ width.bits] := by
    rw [Int.ModEq, ← op.toNat_eval width word, ← op.toNat_eval width other, same]
  refine Width.eq_of_modEq fits fits' ?_
  cases op with
  | not =>
      have turned := (Int.ModEq.refl (2 ^ width.bits - 1)).sub equal
      rwa [exact, exact, sub_sub_cancel, sub_sub_cancel] at turned
  | neg => exact Int.neg_modEq_neg.mp equal

/-- A number divided by one of greater magnitude is what is left. -/
theorem tdiv_tmod_of_lt_natAbs {left : Nat} {right : Int} (smaller : left < right.natAbs) :
    (left : Int).tdiv right = 0 ∧ (left : Int).tmod right = left := by
  have nonzero : right ≠ 0 := by
    rintro rfl
    exact Nat.not_lt_zero _ smaller
  rw [Int.tdiv_tmod_unique (Int.natCast_nonneg _) nonzero]
  exact ⟨by rw [mul_zero, add_zero], Int.natCast_nonneg _, by exact_mod_cast smaller⟩

namespace BinaryOp

variable {op : BinaryOp} {width : Width}

/-- The left operand from which an operation that neither divides nor shifts gives its
right operand back, up to its sign. -/
def revealing : BinaryOp → UInt64
  | and => 0xffffffffffffffff
  | mul | mulu => 1
  | _ => 0

theorem exact_revealing (whole : op.divides = false) (unmoved : op ≠ shl ∧ op ≠ shr)
    {right : UInt64} (fits : right.toNat < 2 ^ width.bits) :
    op.exact width.bits (width.truncate op.revealing).toNat right.toNat
      = if op = sub then -(right.toNat : Int) else right.toNat := by
  have one : 1 % 2 ^ width.bits = 1 := by cases width <;> rfl
  have ones : 0xffffffffffffffff % 2 ^ width.bits = 2 ^ width.bits - 1 := by cases width <;> rfl
  cases op with
  | div | divu | mod | modu => contradiction
  | shl => exact absurd rfl unmoved.1
  | shr => exact absurd rfl unmoved.2
  | add | sub | or | xor => simp [exact, revealing, Width.toNat_truncate]
  | mul | mulu => simp [exact, revealing, Width.toNat_truncate, one]
  | and =>
      rw [exact, Width.toNat_truncate, revealing]
      show (((0xffffffffffffffff % 2 ^ width.bits) &&& right.toNat : Nat) : Int) = _
      rw [ones, Nat.and_comm, Nat.and_two_pow_sub_one_of_lt_two_pow fits]
      rfl

theorem eval_revealing_ne (whole : op.divides = false) (unmoved : op ≠ shl ∧ op ≠ shr)
    {right other : UInt64} (fits : right.toNat < 2 ^ width.bits)
    (fits' : other.toNat < 2 ^ width.bits) (differ : right ≠ other) :
    op.eval width (width.truncate op.revealing) right
      ≠ op.eval width (width.truncate op.revealing) other := by
  have left_lt := width.toNat_truncate_lt op.revealing
  have noDivisor (word : UInt64) : op.divides = true → word ≠ 0 := by
    intro divides
    rw [whole] at divides
    contradiction
  obtain ⟨result, computed, same⟩ := op.toNat_eval left_lt fits (noDivisor right)
  obtain ⟨result', computed', same'⟩ := op.toNat_eval left_lt fits' (noDivisor other)
  rw [exact_revealing whole unmoved fits] at same
  rw [exact_revealing whole unmoved fits'] at same'
  rw [computed, computed']
  intro equal
  rw [Except.ok.inj equal, same'] at same
  refine differ (Width.eq_of_modEq fits fits' ?_)
  split at same
  next => exact Int.neg_modEq_neg.mp same.symm
  next => exact same.symm

/-- A divisor of zero is told apart from any other. -/
theorem eval_zero_ne (divides : op.divides) {left right : UInt64}
    (left_lt : left.toNat < 2 ^ width.bits) (right_lt : right.toNat < 2 ^ width.bits)
    (nonzero : right ≠ 0) : op.eval width left 0 ≠ op.eval width left right := by
  obtain ⟨result, computed, -⟩ := op.toNat_eval left_lt right_lt fun _ => nonzero
  have refused : op.eval width left 0 = .error .divisionByZero := by
    cases op with
    | div | divu | mod | modu => simp only [eval, if_true]
    | _ => contradiction
  rw [refused, computed]
  intro same
  contradiction

/-- By itself a number goes once and leaves nothing, by one of greater magnitude it does not go
and is left. -/
theorem exact_self (divides : op.divides) {left right : Nat} (positive : 0 < left)
    (low : left < 2 ^ (width.bits - 1))
    (smaller : left < (twosComplement width.bits right).natAbs) :
    (op.exact width.bits left left = 1 ∧ op.exact width.bits left right = 0)
      ∨ (op.exact width.bits left left = 0 ∧ op.exact width.bits left right = left) := by
  have own : twosComplement width.bits left = left := if_pos low
  have above : left < right := by
    unfold twosComplement at smaller
    split at smaller
    next => exact_mod_cast smaller
    next => omega
  have nonzero : (left : Int) ≠ 0 := by omega
  obtain ⟨quotient, rest⟩ := tdiv_tmod_of_lt_natAbs smaller
  cases op with
  | div => exact .inl ⟨by rw [exact, own, Int.tdiv_self nonzero], by rw [exact, own, quotient]⟩
  | divu =>
      refine .inl ⟨?_, ?_⟩
      · rw [exact, Nat.div_self positive]
        rfl
      · rw [exact, Nat.div_eq_of_lt above]
        rfl
  | mod => exact .inr ⟨by rw [exact, own, Int.tmod_self], by rw [exact, own, rest]⟩
  | modu =>
      refine .inr ⟨?_, ?_⟩
      · rw [exact, Nat.mod_self]
        rfl
      · rw [exact, Nat.mod_eq_of_lt above]
  | _ => contradiction

/-- A divisor that is the left operand is told apart from one of greater magnitude. -/
theorem eval_self_ne (divides : op.divides) {left right : UInt64} (positive : 0 < left.toNat)
    (low : left.toNat < 2 ^ (width.bits - 1)) (right_lt : right.toNat < 2 ^ width.bits)
    (smaller : left.toNat < (twosComplement width.bits right.toNat).natAbs) :
    op.eval width left left ≠ op.eval width left right := by
  have left_lt : left.toNat < 2 ^ width.bits := by
    rw [width.room_eq]
    omega
  have left_ne : left ≠ 0 := by
    rintro rfl
    contradiction
  have right_ne : right ≠ 0 := by
    rintro rfl
    simp [twosComplement] at smaller
  obtain ⟨result, computed, same⟩ := op.toNat_eval left_lt left_lt fun _ => left_ne
  obtain ⟨result', computed', same'⟩ := op.toNat_eval left_lt right_lt fun _ => right_ne
  rw [computed, computed']
  intro equal
  rw [Except.ok.inj equal, same'] at same
  have room : (left.toNat : Int) < 2 ^ width.bits := by exact_mod_cast left_lt
  rcases exact_self divides positive low smaller with ⟨own, other⟩ | ⟨own, other⟩
  · rw [own, other, Int.zero_emod, Int.emod_eq_of_lt (by omega) (by omega)] at same
    contradiction
  · rw [own, other, Int.zero_emod, Int.emod_eq_of_lt (by omega) room] at same
    omega

/-- A shift looks at its count modulo the bits of the width alone. -/
theorem eval_shift_congr (shifts : op = shl ∨ op = shr) {left right other : UInt64}
    (same : right.toNat % width.bits = other.toNat % width.bits) :
    op.eval width left right = op.eval width left other := by
  have bits : (UInt64.ofNat width.bits).toNat = width.bits := by cases width <;> rfl
  have sameCount : right % UInt64.ofNat width.bits = other % UInt64.ofNat width.bits := by
    apply UInt64.toNat.inj
    rw [UInt64.toNat_mod, UInt64.toNat_mod, bits, same]
  rcases shifts with rfl | rfl
  · simp only [eval, sameCount]
  · simp only [eval, sameCount]

end BinaryOp

/-! ## Stored values that tell instructions apart -/

/-- What was stored at a location is read back there, as far as the width has room for it. -/
theorem Location.read_apply {location : Location} {machine : Machine} {width : Width}
    (fits : location.check machine width = .ok ()) (value : UInt64) :
    location.read (machine.apply ⟨location, width, value⟩) width
      = .ok (width.truncate value) := by
  cases location with
  | register target =>
      show Except.ok (width.truncate ((machine.apply _).register target)) = _
      rw [Machine.register_apply, if_pos rfl, Width.truncate_of_lt (width.toNat_truncate_lt _)]
  | memory address =>
      have held := Memory.holds_store_encode value.toNat (Location.inside_of_check fits)
      have read := held.read_eq (Nat.mod_lt _ (Nat.two_pow_pos _))
      have kept : UInt64.ofNat (value.toNat % 2 ^ width.bits) = width.truncate value := by
        rw [← Width.toNat_truncate, UInt64.ofNat_toNat]
      show (Memory.read (machine.memory.store address _) address width).mapError _ = _
      rw [read, kept]
      rfl

/-- Whatever lies in memory can be read. -/
theorem Location.exists_read {location : Location} {machine : Machine} {width : Width}
    (fits : location.check machine width = .ok ()) :
    ∃ value, location.read machine width = .ok value := by
  cases location with
  | register source => exact ⟨_, rfl⟩
  | memory address =>
      rw [read, Memory.read, Memory.check, if_pos (inside_of_check fits)]
      exact ⟨_, rfl⟩

section

variable {instruction other : Instruction} {machine : Machine}

/-- Instructions that come to different values at one place, which no later write of theirs
covers, are told apart. -/
theorem execute_ne_of_stored {target : Location} {width : Width} {later : List Write}
    {result result' : Except ExecutionFault UInt64}
    (effect : instruction.effect machine
      = result.map fun value => ⟨target, width, value⟩ :: later)
    (effect' : other.effect machine = result'.map fun value => ⟨target, width, value⟩ :: later)
    (fits : target.check machine width = .ok ())
    (kept : ∀ machine : Machine,
      target.read (later.foldl Machine.apply machine) width = target.read machine width)
    (room : ∀ value, result = .ok value → value.toNat < 2 ^ width.bits)
    (room' : ∀ value, result' = .ok value → value.toNat < 2 ^ width.bits)
    (differ : result ≠ result') : execute instruction machine ≠ execute other machine := by
  rw [execute_eq, execute_eq, effect, effect']
  intro same
  cases result with
  | error fault =>
      cases result' with
      | error fault' =>
          injection same with same
          exact differ (congrArg Except.error same)
      | ok value' => contradiction
  | ok value =>
      cases result' with
      | error fault' => contradiction
      | ok value' =>
          -- What is read at the place afterwards is what was stored there.
          have read := congrArg (target.read · width) (EStateM.Result.ok.inj same).2
          simp only [List.foldl_cons, kept] at read
          rw [Location.read_apply fits, Location.read_apply fits,
            Width.truncate_of_lt (room value rfl), Width.truncate_of_lt (room' value' rfl)] at read
          exact differ read

namespace Instruction

/-- A unary operation is computed once its source is read. -/
theorem effect_unary {op : UnaryOp} {source : UInt64} (opcode : instruction.opcode = .unary op)
    (read : instruction.carrierValue machine = .ok source)
    (fits : (instruction.operand1.location machine none).check machine
      instruction.operationWidth = .ok ()) :
    instruction.effect machine
      = (Except.ok (op.eval instruction.operationWidth source)).map fun result =>
        [⟨instruction.operand1.location machine none, instruction.operationWidth, result⟩] :=
  effect_eq_ok_iff.mpr (.unary opcode read fits)

/-- A binary operation is computed once its operands are read. -/
theorem effect_binary {op : BinaryOp} {left right : UInt64}
    (opcode : instruction.opcode = .binary op)
    (readLeft : (instruction.operand1.location machine none).read machine
      instruction.operationWidth = .ok left)
    (readRight : instruction.carrierValue machine = .ok right) :
    instruction.effect machine
      = (op.eval instruction.operationWidth left right).map fun result =>
        [⟨instruction.operand1.location machine none, instruction.operationWidth, result⟩] := by
  unfold effect
  simp only [opcode, readLeft, readRight, bind, Except.bind]
  cases op.eval instruction.operationWidth left right <;> rfl

/-- A `PUSH` stores its source. -/
theorem effect_push {source : UInt64} (opcode : instruction.opcode = .push)
    (read : instruction.carrierValue machine = .ok source)
    (fits : (Location.memory (machine.register .r0
      - UInt64.ofNat instruction.operationWidth.bytes)).check machine
        instruction.operationWidth = .ok ()) :
    instruction.effect machine
      = (Except.ok source).map fun value =>
        [⟨.memory (machine.register .r0 - UInt64.ofNat instruction.operationWidth.bytes),
            instruction.operationWidth, value⟩,
          ⟨.register .r0, .quad,
            machine.register .r0 - UInt64.ofNat instruction.operationWidth.bytes⟩] :=
  effect_eq_ok_iff.mpr (.push opcode read fits)

end Instruction

end

/-! ## Machines to try -/

/-- The machine with `word` in every register. -/
def Machine.filled (word : UInt64) (memory : Memory) : Machine where
  registers := Vector.replicate 8 word
  ip := 0
  memory := memory

@[simp] theorem Machine.register_filled (word : UInt64) (memory : Memory) (register : Register) :
    (filled word memory).register register = word := by
  simp [Machine.register, filled]

namespace Operand

/-- A machine on which the operand is read as `value`: every register holds it, or for an indirect
operand every register is zero, and it stands at the start of memory. -/
def probe (operand : Operand) (width : Width) (value : UInt64) : Machine :=
  if operand.indirect then
    (Machine.filled 0 (.zeroed 8)).apply ⟨.memory 0, width, value⟩
  else
    .filled value (.zeroed 8)

theorem register_probe (operand : Operand) (width : Width) (value : UInt64)
    (register : Register) :
    (operand.probe width value).register register = if operand.indirect then 0 else value := by
  unfold probe
  split
  next => rw [Machine.register_apply, if_neg (by simp), Machine.register_filled]
  next => rw [Machine.register_filled]

theorem read_probe (operand : Operand) (width : Width) (value : UInt64) :
    (operand.location (operand.probe width value) none).read (operand.probe width value) width
      = .ok (width.truncate value) := by
  rw [location, register_probe]
  split
  next indirect =>
    have fits : (Location.memory 0).check (Machine.filled 0 (.zeroed 8)) width = .ok () := by
      cases width <;> rfl
    rw [probe, if_pos indirect]
    exact Location.read_apply fits value
  next direct => rw [probe, if_neg direct, Location.read, Machine.register_filled]

end Operand

end RegisterVM
