import RegisterVM.Machine.Execute
import RegisterVM.Proofs.Checked.Codec
import RegisterVM.Proofs.Machine.Faults
import RegisterVM.Proofs.Word.SignExtension

/-!
# Execution without a defect

An instruction carried out in the operations that may come upon a defect:
registers by their place in the file, memory in slices and copies, and one
arithmetic unit that takes any opcode but knows only the arithmetic ones.
`execute_eq` says that no defect is come upon, whatever the instruction and the
machine. A division is the one place that needs more than the operation at hand:
the unit tests the divisor as it is and divides by its sign extension, which is
zero only along with it because operands come narrowed to the width.
-/

namespace RegisterVM.Checked

/-- What may change the machine or fail with a fault, unless it comes upon a defect. -/
abbrev Task (α : Type) := ExceptT ExecutionFault (StateT Machine (Except Defect)) α

/-- A task that comes upon no defect, and does what is asked for. -/
def safely {α : Type} (asked : EStateM ExecutionFault Machine α) : Task α :=
  ExceptT.mk fun machine =>
    match asked machine with
    | .ok value after => .ok (.ok value, after)
    | .error fault after => .ok (.error fault, after)

section Tasks

variable {α β : Type}

theorem Task.ext {first second : Task α}
    (same : ∀ machine, first.run.run machine = second.run.run machine) : first = second :=
  funext same

theorem safely_congr {asked other : EStateM ExecutionFault Machine α}
    (same : ∀ machine, asked machine = other machine) : safely asked = safely other :=
  congrArg safely (funext same)

theorem run_safely (asked : EStateM ExecutionFault Machine α) (machine : Machine) :
    (safely asked).run.run machine =
      match asked machine with
      | .ok value after => .ok (.ok value, after)
      | .error fault after => .ok (.error fault, after) :=
  rfl

theorem run_safely_bind (asked : EStateM ExecutionFault Machine α) (next : α → Task β)
    (machine : Machine) :
    (safely asked >>= next).run.run machine =
      match asked machine with
      | .ok value after => (next value).run.run after
      | .error fault after => .ok (.error fault, after) := by
  simp only [bind, ExceptT.bind, ExceptT.run, ExceptT.mk, StateT.bind, StateT.run, safely]
  cases asked machine <;> rfl

/-- Tasks are safe one after another, if the second is with what the first may give. -/
theorem safely_bind_of {asked : EStateM ExecutionFault Machine α} {next : α → Task β}
    {askedNext : α → EStateM ExecutionFault Machine β}
    (safe : ∀ machine value after, asked machine = .ok value after →
      next value = safely (askedNext value)) :
    (safely asked >>= next) = safely (asked >>= askedNext) := by
  apply Task.ext
  intro machine
  rw [run_safely_bind, run_safely]
  simp only [bind, EStateM.bind]
  cases done : asked machine with
  | ok value after => simp only [safe machine value after done, run_safely]
  | error fault after => rfl

theorem safely_bind (asked : EStateM ExecutionFault Machine α)
    (askedNext : α → EStateM ExecutionFault Machine β) :
    (safely asked >>= fun value => safely (askedNext value)) = safely (asked >>= askedNext) :=
  safely_bind_of fun _ _ _ _ => rfl

/-- A task that looks at the machine first goes on as it does for the machine at hand. -/
theorem run_get_bind (next : Machine → Task α) (machine : Machine) :
    (get >>= next).run.run machine = (next machine).run.run machine :=
  rfl

theorem pure_eq_safely (value : α) : (pure value : Task α) = safely (pure value) :=
  rfl

theorem lift_ok_bind (value : α) (next : α → Task β) :
    ((liftM (Except.ok value : Except Defect α) : Task α) >>= next) = next value :=
  rfl

theorem lift_ok_eq_safely (value : α) :
    (liftM (Except.ok value : Except Defect α) : Task α) = safely (pure value) :=
  rfl

end Tasks

/-! ## Memory -/

/-- The range of `length` bytes from `address` on, as places in memory. -/
def range (memory : Memory) (address : UInt64) (length : Nat) : Except MemoryFault (Nat × Nat) :=
  let start := address.toNat
  if start + length < 2 ^ 64 ∧ start + length ≤ memory.size then
    .ok (start, start + length)
  else
    .error (.outOfBounds address length)

/-- A number read into the front of eight zero bytes. -/
def readMemory (memory : Memory) (address : UInt64) (width : Width) :
    ExceptT MemoryFault (Except Defect) UInt64 := do
  let (start, stop) ← answer (range memory address width.bytes)
  let found ← slice memory.bytes.toList start stop
  let value ← copy (List.replicate 8 0) 0 width.bytes found
  return UInt64.ofNat (LittleEndian.decode value)

/-- Copies bytes over a range of memory. -/
def copyInto (memory : Memory) (start stop : Nat) (source : List UInt8) : Except Defect Memory :=
  if start ≤ stop ∧ stop ≤ memory.size ∧ source.length = stop - start then
    .ok (memory.store (UInt64.ofNat start) source)
  else
    .error .outOfRange

/-- Memory with the low bytes of a value in place. -/
def writeMemory (memory : Memory) (address : UInt64) (width : Width) (value : UInt64) :
    ExceptT MemoryFault (Except Defect) Memory := do
  let (start, stop) ← answer (range memory address width.bytes)
  let low ← slice (LittleEndian.encode 8 value.toNat) 0 width.bytes
  copyInto memory start stop low

/-- The bytes from an address to the end. -/
def sliceFrom (memory : Memory) (address : UInt64) :
    ExceptT MemoryFault (Except Defect) (List UInt8) := do
  let (start, _) ← answer (range memory address 0)
  slice memory.bytes.toList start memory.size

/-- The end of a range inside memory is no sum that overflows. -/
theorem range_eq (memory : Memory) (address : UInt64) (length : Nat) :
    range memory address length
      = (memory.check address length).map fun _ => (address.toNat, address.toNat + length) := by
  have bound : memory.size < 2 ^ 64 := memory.size_lt
  unfold range Memory.check
  by_cases inside : address.toNat + length ≤ memory.size
  · rw [if_pos ⟨by omega, inside⟩, if_pos inside]
    rfl
  · rw [if_neg (fun both => inside both.2), if_neg inside]
    rfl

/-- A window onto memory is a slice of its bytes. -/
theorem slice_eq_window {memory : Memory} {start length : Nat}
    (inside : start + length ≤ memory.size) :
    slice memory.bytes.toList start (start + length) = .ok (memory.window start length) := by
  rw [slice_eq (Nat.le_add_right _ _) (by rwa [Array.length_toList])]
  simp only [Memory.window, Array.toList_extract, List.extract_eq_take_drop, List.drop_take]

/-- Zero bytes behind a number leave it as it is. -/
theorem decode_append_zeros (bytes : List UInt8) (count : Nat) :
    LittleEndian.decode (bytes ++ List.replicate count 0) = LittleEndian.decode bytes := by
  induction bytes with
  | nil =>
      induction count with
      | zero => rfl
      | succ count ih =>
          rw [List.nil_append] at ih ⊢
          simp [List.replicate_succ, LittleEndian.decode, ih]
  | cons byte bytes ih => rw [List.cons_append, LittleEndian.decode, LittleEndian.decode, ih]

theorem readMemory_eq (memory : Memory) (address : UInt64) (width : Width) :
    readMemory memory address width = answer (memory.read address width) := by
  rw [readMemory, range_eq, Memory.read, Memory.check]
  by_cases inside : address.toNat + width.bytes ≤ memory.size
  · have length : (memory.window address.toNat width.bytes).length = width.bytes := by
      simp only [Memory.window, Array.length_toList, Array.size_extract]
      unfold Memory.size at inside
      omega
    have room : 0 ≤ width.bytes ∧ width.bytes ≤ (List.replicate 8 (0 : UInt8)).length
        ∧ (memory.window address.toNat width.bytes).length = width.bytes - 0 :=
      ⟨Nat.zero_le _, by rw [List.length_replicate]; exact width.bytes_le, length⟩
    simp only [if_pos inside, Except.map, answer_ok_bind, slice_eq_window inside, liftM_ok, copy,
      if_pos room]
    rw [List.take_zero, List.nil_append, List.drop_replicate, decode_append_zeros]
    rfl
  · rw [if_neg inside]
    rfl

theorem writeMemory_eq (memory : Memory) (address : UInt64) (width : Width) (value : UInt64) :
    writeMemory memory address width value
      = answer ((memory.check address width.bytes).map fun _ =>
          memory.store address (LittleEndian.encode width.bytes value.toNat)) := by
  rw [writeMemory, range_eq, Memory.check]
  by_cases inside : address.toNat + width.bytes ≤ memory.size
  · have room : address.toNat ≤ address.toNat + width.bytes
        ∧ address.toNat + width.bytes ≤ memory.size
        ∧ (LittleEndian.encode width.bytes value.toNat).length
          = address.toNat + width.bytes - address.toNat := by
      rw [LittleEndian.length_encode]
      omega
    simp only [if_pos inside, Except.map, answer_ok_bind, slice_encode, liftM_ok, copyInto,
      if_pos room, UInt64.ofNat_toNat]
  · rw [if_neg inside]
    rfl

theorem sliceFrom_eq (memory : Memory) (address : UInt64) :
    sliceFrom memory address = answer (memory.sliceFrom address) := by
  rw [sliceFrom, range_eq, Memory.sliceFrom]
  unfold Memory.check
  by_cases inside : address.toNat + 0 ≤ memory.size
  · have rest : address.toNat + (memory.size - address.toNat) = memory.size := by omega
    have shown : slice memory.bytes.toList address.toNat
          (address.toNat + (memory.size - address.toNat))
        = .ok (memory.window address.toNat (memory.size - address.toNat)) :=
      slice_eq_window (Nat.le_of_eq rest)
    rw [rest, Memory.window, rest] at shown
    simp only [if_pos inside, Except.map, answer_ok_bind, shown, liftM_ok]
  · rw [if_neg inside]
    rfl

/-- What was looked up in memory, or the execution fault that wraps its refusal. -/
def orFault {α : Type} (looked : ExceptT MemoryFault (Except Defect) α) : Task α := do
  match ← (looked.run : Except Defect (Except MemoryFault α)) with
  | .ok value => return value
  | .error fault => throw (.memory fault)

theorem orFault_answer {α : Type} (result : Except MemoryFault α) :
    orFault (answer result) = safely (inspect fun _ => result.mapError .memory) := by
  cases result <;> rfl

/-! ## Registers and locations -/

/-- What a register holds, by its place in the file. -/
def register (source : Register) : Task UInt64 := do
  lookUp (← get).registers.toList source.index.val

/-- Puts a value in a register, at a place that the file has to have. -/
def setRegister (target : Register) (value : UInt64) : Task Unit := do
  let machine ← get
  let _ ← lookUp machine.registers.toList target.index.val
  set (machine.setRegister target value)

/-- Where an operand stands, by the registers as they are. -/
def locate (operand : Operand) (index : Option NaturalIndex) : Task Location := do
  if operand.indirect then
    return .memory (displace index (← register operand.register))
  else
    return .register operand.register

/-- The low bytes of what a location holds. -/
def load (location : Location) (width : Width) : Task UInt64 := do
  match location with
  | .register source => truncate width (← register source)
  | .memory address => orFault (readMemory (← get).memory address width)

/-- Stores the low bytes of a value at a location. -/
def store (location : Location) (width : Width) (value : UInt64) : Task Unit := do
  match location with
  | .register target => setRegister target (← truncate width value)
  | .memory address =>
      let memory ← orFault (writeMemory (← get).memory address width value)
      modify fun machine => { machine with memory }

/-- The file has a place for each of the eight registers. -/
theorem lookUp_register (machine : Machine) (source : Register) :
    lookUp machine.registers.toList source.index.val = .ok (machine.register source) := by
  have place : machine.registers.toList[source.index.val]? = some (machine.register source) := by
    rw [List.getElem?_eq_some_iff]
    exact ⟨by simp, by simp [Machine.register]⟩
  rw [lookUp, place]

theorem register_eq (source : Register) :
    register source = safely (inspect fun machine => .ok (machine.register source)) := by
  apply Task.ext
  intro machine
  rw [register, run_get_bind, lookUp_register]
  rfl

theorem setRegister_eq (target : Register) (value : UInt64) :
    setRegister target value = safely (modify fun machine => machine.setRegister target value) := by
  apply Task.ext
  intro machine
  rw [setRegister, run_get_bind, lookUp_register]
  rfl

theorem locate_eq (operand : Operand) (index : Option NaturalIndex) :
    locate operand index
      = safely (inspect fun machine => .ok (operand.location machine index)) := by
  unfold locate Operand.location
  by_cases indirect : operand.indirect
  · simp only [if_pos indirect, register_eq]
    rfl
  · simp only [if_neg indirect]
    rfl

theorem load_eq (location : Location) (width : Width) :
    load location width = safely (inspect fun machine => location.read machine width) := by
  cases location with
  | register source =>
      simp only [load, register_eq, truncate_eq]
      rfl
  | memory address =>
      apply Task.ext
      intro machine
      simp only [load, run_get_bind, readMemory_eq, orFault_answer]
      rfl

theorem store_eq (location : Location) (width : Width) (value : UInt64) :
    store location width value = safely (location.store width value) := by
  cases location with
  | register target =>
      simp only [store, setRegister_eq, truncate_eq]
      rfl
  | memory address =>
      apply Task.ext
      intro machine
      simp only [store, run_get_bind, writeMemory_eq, orFault_answer]
      rw [run_safely_bind, run_safely]
      simp only [inspect, Location.store, Memory.write, Memory.load, LittleEndian.length_encode]
      cases machine.memory.check address width.bytes <;> rfl

/-! ## Operands -/

/-- The operand that may carry the immediate: at an address that it displaces, or added to it. -/
def operandValue (operand : Operand) (immediate : Option UInt32) (width : Width) :
    Task UInt64 := do
  if operand.indirect then
    let index ← optionalIndex .word (immediate.map UInt32.toUInt64)
    load (← locate operand index) width
  else
    truncate width ((← register operand.register) + (immediate.map UInt32.toUInt64).getD 0)

theorem carrierIndex?_eq (instruction : Instruction) :
    (instruction.immediate?.map UInt32.toUInt64).map (NaturalIndex.decode .word)
      = instruction.carrierIndex? := by
  rw [Option.map_map]
  rfl

theorem operandValue_eq (instruction : Instruction) :
    operandValue instruction.carrier instruction.immediate? instruction.operationWidth
      = safely (inspect instruction.carrierValue) := by
  by_cases indirect : instruction.carrier.indirect
  · simp only [operandValue, if_pos indirect, optionalIndex_eq, carrierIndex?_eq,
      lift_ok_eq_safely, locate_eq, load_eq, safely_bind]
    refine safely_congr fun machine => ?_
    simp only [pure_bind, inspect_bind, inspect, Instruction.carrierValue, if_pos indirect]
  · simp only [operandValue, if_neg indirect, register_eq, truncate_eq, lift_ok_eq_safely,
      safely_bind]
    refine safely_congr fun machine => ?_
    simp only [inspect_bind, inspect, Instruction.carrierValue, if_neg indirect]
    rfl

/-! ## Arithmetic -/

/-- Passes a divisor through, unless it is zero. -/
def divisor (value : UInt64) : Task UInt64 :=
  if value = 0 then throw .divisionByZero else pure value

/-- The result of an arithmetic opcode; no other is provided for. -/
def alu (opcode : Opcode) (left right : UInt64) (width : Width) : Task UInt64 := do
  let signedLeft ← signExtend width left
  let signedRight ← signExtend width right
  let shift ← remainder right (UInt64.ofNat (← bits width))
  let result : UInt64 ←
    match opcode with
    | .unary .not => pure (~~~right)
    | .unary .neg => pure (-right)
    | .binary .add => pure (left + right)
    | .binary .sub => pure (left - right)
    | .binary .mul => pure (signedLeft * signedRight).toUInt64
    | .binary .mulu => pure (left * right)
    | .binary .div => do
        let _ ← divisor right
        pure (← wrappingDivide signedLeft signedRight).toUInt64
    | .binary .divu => do divide left (← divisor right)
    | .binary .mod => do
        let _ ← divisor right
        pure (← wrappingRemainder signedLeft signedRight).toUInt64
    | .binary .modu => do remainder left (← divisor right)
    | .binary .and => pure (left &&& right)
    | .binary .or => pure (left ||| right)
    | .binary .xor => pure (left ^^^ right)
    | .binary .shl => shiftLeft left shift.toNat
    | .binary .shr => shiftRight left shift.toNat
    | .nop | .ret | .move _ | .push | .pop =>
        (.error .unreachable : Except Defect UInt64)
  truncate width result

theorem bits_ne_zero (width : Width) : UInt64.ofNat width.bits ≠ 0 := by
  cases width <;> decide

/-- A remainder by the bits of a width is a shift by less than all bits of a word. -/
theorem shift_lt (right : UInt64) (width : Width) :
    (right % UInt64.ofNat width.bits).toNat < 64 := by
  have most : (UInt64.ofNat width.bits).toNat ≤ 64 := by
    cases width <;> decide
  have least : 0 < (UInt64.ofNat width.bits).toNat := by
    cases width <;> decide
  rw [UInt64.toNat_mod]
  exact Nat.lt_of_lt_of_le (Nat.mod_lt _ least) most

theorem alu_unary (op : UnaryOp) (left right : UInt64) (width : Width) :
    alu (.unary op) left right width = safely (pure (op.eval width right)) := by
  simp only [alu, signExtend_eq, bits_eq, truncate_eq, remainder_eq (bits_ne_zero width),
    lift_ok_bind]
  cases op <;> rfl

/-- The divisor is tested as it is, and divided by as it is sign-extended. One that is wider than
the width could pass the test and be zero where it counts. -/
theorem alu_binary (op : BinaryOp) (left : UInt64) {right : UInt64} {width : Width}
    (fits : right.toNat < 2 ^ width.bits) :
    alu (.binary op) left right width = safely (inspect fun _ => op.eval width left right) := by
  simp only [alu, signExtend_eq, bits_eq, truncate_eq, remainder_eq (bits_ne_zero width),
    lift_ok_bind]
  cases op with
  | add | sub | mul | mulu | and | or | xor => rfl
  | shl | shr =>
      simp only [shiftLeft_eq (shift_lt _ _), shiftRight_eq (shift_lt _ _), UInt64.ofNat_toNat]
      rfl
  | div | divu | mod | modu =>
      by_cases zero : right = 0
      · subst zero
        rfl
      · have signed : width.signExtend right ≠ 0 :=
          fun nothing => zero (Width.eq_zero_of_signExtend_eq_zero fits nothing)
        apply Task.ext
        intro machine
        simp only [divisor, if_neg zero, wrappingDivide_eq signed, wrappingRemainder_eq signed,
          divide_eq zero, remainder_eq zero, pure_bind, BinaryOp.eval]
        rfl

/-! ## Instructions -/

/-- The operand that a move copies; the index of a direct one is added to its register. -/
def copied (operand : Operand) (index : Option NaturalIndex) (width : Width) : Task UInt64 := do
  if operand.indirect then
    load (← locate operand index) width
  else
    truncate width (displace index (← register operand.register))

/-- The indexes that the arguments of a move hold, and no others do. -/
def rawIndexes (arguments : Arguments) : Option UInt64 × Option UInt64 :=
  match arguments with
  | .generic .. => (none, none)
  | .move _ _ index1 index2 => (index1, index2)

/-- Copies a value from operand 2 to operand 1, by the widths of the opcode. -/
def move (instruction : Instruction) : Task Unit := do
  match instruction.opcode.moveForm? with
  | none => return
  | some form =>
      let index1 ← optionalIndex form.indexWidth (rawIndexes instruction.arguments).1
      let index2 ← optionalIndex form.indexWidth (rawIndexes instruction.arguments).2
      let value ← copied instruction.operand2 index2 form.valueWidth
      let target ← locate instruction.operand1 index1
      store target form.valueWidth value

/-- The accesses of an instruction. Whatever is neither named nor a move goes to the arithmetic
unit. -/
def carryOut (instruction : Instruction) : Task Unit := do
  let width := instruction.operationWidth
  let immediate := instruction.immediate?
  let operand1 := instruction.operand1
  let operand2 := instruction.operand2
  match instruction.opcode with
  | .nop | .ret => return
  | .unary op =>
      let target ← locate operand1 none
      let source ← operandValue operand2 immediate width
      let result ← alu (.unary op) 0 source width
      store target width result
  | .push =>
      let value ← operandValue operand1 immediate width
      let top := (← register .r0) - UInt64.ofNat width.bytes
      store (.memory top) width value
      setRegister .r0 top
  | .pop =>
      let top ← register .r0
      let value ← load (.memory top) width
      let index ← optionalIndex .word (immediate.map UInt32.toUInt64)
      let target ← locate operand1 index
      store target width value
      setRegister .r0 (top + UInt64.ofNat width.bytes)
  | opcode =>
      if opcode.moveForm?.isSome then
        move instruction
      else
        let target ← locate operand1 none
        let left ← load target width
        let right ← operandValue operand2 immediate width
        let result ← alu opcode left right width
        store target width result

/-- Carries out an instruction, or fails. -/
def execute (instruction : Instruction) : Task Outcome := do
  carryOut instruction
  return instruction.opcode.outcome

/-- A machine that is looked at first is the machine at hand. -/
theorem get_bind {α : Type} (next : Machine → EStateM ExecutionFault Machine α)
    (machine : Machine) : (get >>= next) machine = next machine machine :=
  rfl

theorem copied_eq (instruction : Instruction) (form : MoveForm) :
    copied instruction.operand2 (instruction.moveIndexes form).2 form.valueWidth
      = safely (inspect (instruction.moveValue form)) := by
  by_cases indirect : instruction.operand2.indirect
  · simp only [copied, if_pos indirect, locate_eq, load_eq, safely_bind]
    refine safely_congr fun machine => ?_
    simp only [inspect_bind, inspect, Instruction.moveValue, if_pos indirect]
  · simp only [copied, if_neg indirect, register_eq, truncate_eq, lift_ok_eq_safely, safely_bind]
    refine safely_congr fun machine => ?_
    simp only [inspect_bind, inspect, Instruction.moveValue, if_neg indirect]
    rfl

theorem rawIndexes_decoded (instruction : Instruction) (form : MoveForm) :
    (rawIndexes instruction.arguments).1.map (NaturalIndex.decode form.indexWidth)
        = (instruction.moveIndexes form).1
      ∧ (rawIndexes instruction.arguments).2.map (NaturalIndex.decode form.indexWidth)
        = (instruction.moveIndexes form).2 := by
  unfold rawIndexes Instruction.moveIndexes
  cases instruction.arguments with
  | generic wide immediate => exact ⟨rfl, rfl⟩
  | move valueWidth indexWidth index1 index2 => exact ⟨rfl, rfl⟩

theorem move_eq {instruction : Instruction} {form : MoveForm}
    (opcode : instruction.opcode = .move form) :
    move instruction = safely instruction.carryOut := by
  obtain ⟨first, second⟩ := rawIndexes_decoded instruction form
  simp only [move, opcode, Opcode.moveForm?, optionalIndex_eq, lift_ok_bind, first, second,
    copied_eq, locate_eq, store_eq, safely_bind]
  refine safely_congr fun machine => ?_
  simp only [Instruction.carryOut, opcode, get_bind, inspect_bind]

/-- What was inspected is what the look found. -/
theorem eq_ok_of_inspect {α : Type} {look : Machine → Except ExecutionFault α}
    {machine after : Machine} {value : α} (found : inspect look machine = .ok value after) :
    look machine = .ok value := by
  unfold inspect at found
  split at found
  next => contradiction
  next other seen =>
    injection found with same
    rw [seen, same]

theorem carryOut_eq (instruction : Instruction) :
    carryOut instruction = safely instruction.carryOut := by
  have value := operandValue_eq instruction
  unfold Instruction.carrier at value
  unfold carryOut
  cases opcode : instruction.opcode with
  | nop | ret =>
      simp only [pure_eq_safely]
      refine safely_congr fun machine => ?_
      simp only [Instruction.carryOut, opcode, get_bind]
  | unary op =>
      simp only [opcode] at value
      simp only [value, locate_eq, alu_unary, store_eq, safely_bind]
      refine safely_congr fun machine => ?_
      simp only [Instruction.carryOut, opcode, get_bind, inspect_bind, pure_bind]
  | push =>
      simp only [opcode] at value
      simp only [value, register_eq, store_eq, setRegister_eq, safely_bind]
      refine safely_congr fun machine => ?_
      simp only [Instruction.carryOut, opcode, get_bind, inspect_bind]
      cases instruction.carrierValue machine <;> rfl
  | pop =>
      simp only [register_eq, load_eq, optionalIndex_eq, carrierIndex?_eq, lift_ok_bind,
        locate_eq, store_eq, setRegister_eq, safely_bind]
      refine safely_congr fun machine => ?_
      simp only [Instruction.carryOut, opcode, get_bind, inspect_bind]
      cases (Location.memory (machine.register .r0)).read machine instruction.operationWidth <;> rfl
  | move form => exact move_eq opcode
  | binary op =>
      simp only [opcode] at value
      -- The unit is given the source that was read, which is narrowed to the width.
      have fits : ∀ machine right after,
          inspect instruction.carrierValue machine = .ok right after →
            right.toNat < 2 ^ instruction.operationWidth.bits := by
        intro machine right after read
        rw [Instruction.toNat_carrierValue (eq_ok_of_inspect read)]
        exact Nat.mod_lt _ (Nat.two_pow_pos _)
      have computed (target : Location) (left : UInt64) :
          (do
            let right ← safely (inspect instruction.carrierValue)
            let result ← alu (.binary op) left right instruction.operationWidth
            safely (target.store instruction.operationWidth result))
          = safely (do
            let right ← inspect instruction.carrierValue
            let result ← inspect fun _ => op.eval instruction.operationWidth left right
            target.store instruction.operationWidth result) := by
        refine safely_bind_of fun machine right after read => ?_
        rw [alu_binary op left (fits machine right after read), safely_bind]
      simp only [value, locate_eq, load_eq, store_eq, computed, safely_bind, Opcode.moveForm?,
        Option.isSome_none, Bool.false_eq_true, if_false]
      refine safely_congr fun machine => ?_
      simp only [Instruction.carryOut, opcode, get_bind, inspect_bind]

theorem execute_eq (instruction : Instruction) :
    execute instruction = safely (RegisterVM.execute instruction) := by
  rw [execute, carryOut_eq, pure_eq_safely, safely_bind]
  rfl

end RegisterVM.Checked
