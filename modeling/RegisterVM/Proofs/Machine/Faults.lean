import RegisterVM.Proofs.Machine.Resolution
import RegisterVM.Proofs.Word.Remainder

/-!
# What an instruction demands

What can keep an instruction from being carried out is known from the machine
before it: the ranges of memory that it accesses, and its divisor.
`Instruction.demands` lists them opcode by opcode, in the order in which they are
looked at. The main result is `execute_fails_first_unmet`: an instruction fails
exactly if one of its demands is not met, with the fault of the first such one.
-/

namespace RegisterVM

/-- What an instruction needs of the machine. -/
inductive Demand where
  /-- That a value of the width at the address lies inside memory. -/
  | range (address : UInt64) (width : Width)
  /-- That a number is not zero where it is cut to the width. -/
  | divisor (number : Nat) (width : Width)
  deriving DecidableEq

namespace Demand

/-- The machine provides what is needed. -/
def Met (demand : Demand) (machine : Machine) : Prop :=
  match demand with
  | range address width => address.toNat + width.bytes ≤ machine.memory.size
  | divisor number width => number % 2 ^ (8 * width.bytes) ≠ 0

instance (demand : Demand) (machine : Machine) : Decidable (demand.Met machine) :=
  match demand with
  | range address width =>
      inferInstanceAs (Decidable (address.toNat + width.bytes ≤ machine.memory.size))
  | divisor number width => inferInstanceAs (Decidable (number % 2 ^ (8 * width.bytes) ≠ 0))

/-- The fault of an instruction for which the demand is not met. -/
def fault : Demand → ExecutionFault
  | range address width => .memory (.outOfBounds address width.bytes)
  | divisor .. => .divisionByZero

/-- The fault of the first demand that is not met, if there is one. -/
def firstFault? (demands : List Demand) (machine : Machine) : Option ExecutionFault :=
  (demands.find? fun demand => ¬ demand.Met machine).map fault

theorem firstFault?_eq_some_iff {demands : List Demand} {machine : Machine}
    {cause : ExecutionFault} :
    firstFault? demands machine = some cause ↔
      ∃ front demand rest, demands = front ++ demand :: rest
        ∧ (∀ earlier ∈ front, earlier.Met machine) ∧ ¬ demand.Met machine
        ∧ cause = demand.fault := by
  simp only [firstFault?, Option.map_eq_some_iff, List.find?_eq_some_iff_append]
  constructor
  · rintro ⟨demand, ⟨unmet, front, rest, listed, met⟩, rfl⟩
    exact ⟨front, demand, rest, listed, by simpa using met, by simpa using unmet, rfl⟩
  · rintro ⟨front, demand, rest, listed, met, unmet, rfl⟩
    exact ⟨demand, ⟨by simpa using unmet, front, rest, listed, by simpa using met⟩, rfl⟩

theorem firstFault?_eq_none_iff {demands : List Demand} {machine : Machine} :
    firstFault? demands machine = none ↔ ∀ demand ∈ demands, demand.Met machine := by
  simp [firstFault?]

end Demand

/-- The demand of an access through the operand; a register is always there. -/
def Operand.demands (operand : Operand) (machine : Machine) (index : Option NaturalIndex)
    (width : Width) : List Demand :=
  if operand.indirect then
    [.range (displace index (machine.register operand.register)) width]
  else
    []

/-- The operations that divide by their second operand. -/
def BinaryOp.divides : BinaryOp → Bool
  | div | divu | mod | modu => true
  | _ => false

namespace Instruction

/-- The number that the operand with the immediate stands for: what memory holds at its address,
or the sum of its register and the immediate. -/
def sourceNumber (instruction : Instruction) (machine : Machine) : Nat :=
  let base := machine.register instruction.carrier.register
  if instruction.carrier.indirect then
    LittleEndian.decode (machine.memory.window (displace instruction.carrierIndex? base).toNat
      instruction.operationWidth.bytes)
  else
    base.toNat + (instruction.immediate?.map UInt32.toNat).getD 0

/-- What the instruction needs, in the order in which it is looked at. -/
def demands (instruction : Instruction) (machine : Machine) : List Demand :=
  let width := instruction.operationWidth
  let source := instruction.carrier.demands machine instruction.carrierIndex? width
  match instruction.opcode with
  | .nop | .ret => []
  | .unary _ => source ++ instruction.operand1.demands machine none width
  | .binary op =>
      instruction.operand1.demands machine none width ++ (source
        ++ if op.divides then [.divisor (instruction.sourceNumber machine) width] else [])
  | .push => source ++ [.range (machine.register .r0 - UInt64.ofNat width.bytes) width]
  | .pop =>
      [.range (machine.register .r0) width]
        ++ instruction.operand1.demands machine instruction.carrierIndex? width
  | .move form =>
      let (index1, index2) := instruction.moveIndexes form
      instruction.operand2.demands machine index2 form.valueWidth
        ++ instruction.operand1.demands machine index1 form.valueWidth

end Instruction

/-! ## Looks that fail as demanded -/

/-- The look fails with the fault of the first demand that is not met, and finds a value if all of
them are met. -/
def Governed {α : Type} (look : Except ExecutionFault α) (demands : List Demand)
    (machine : Machine) : Prop :=
  match look with
  | .error fault => Demand.firstFault? demands machine = some fault
  | .ok _ => Demand.firstFault? demands machine = none

namespace Governed

variable {α β : Type} {machine : Machine}

theorem eq_error_iff {look : Except ExecutionFault α} {demands : List Demand}
    (governed : Governed look demands machine) {fault : ExecutionFault} :
    look = .error fault ↔ Demand.firstFault? demands machine = some fault := by
  cases look with
  | error cause => simp [show Demand.firstFault? demands machine = some cause from governed]
  | ok value => simp [show Demand.firstFault? demands machine = none from governed]

theorem eq_ok_iff {look : Except ExecutionFault α} {demands : List Demand}
    (governed : Governed look demands machine) :
    (∃ value, look = .ok value) ↔ Demand.firstFault? demands machine = none := by
  cases look with
  | error cause => simp [show Demand.firstFault? demands machine = some cause from governed]
  | ok value => simp [show Demand.firstFault? demands machine = none from governed]

theorem pure (value : α) : Governed (.ok value) [] machine :=
  rfl

/-- Looks that follow one another make their demands one after another. -/
theorem bind {first : Except ExecutionFault α} {next : α → Except ExecutionFault β}
    {front rest : List Demand} (governed : Governed first front machine)
    (after : ∀ value, first = .ok value → Governed (next value) rest machine) :
    Governed (first >>= next) (front ++ rest) machine := by
  have split : Demand.firstFault? (front ++ rest) machine
      = (Demand.firstFault? front machine).or (Demand.firstFault? rest machine) := by
    simp only [Demand.firstFault?, List.find?_append]
    cases List.find? (fun demand => decide ¬ demand.Met machine) front <;> rfl
  cases found : first with
  | error fault =>
      rw [found] at governed
      show Demand.firstFault? (front ++ rest) machine = some fault
      rw [split, show Demand.firstFault? front machine = some fault from governed]
      rfl
  | ok value =>
      have later := after value found
      rw [found] at governed
      show Governed (next value) (front ++ rest) machine
      unfold Governed at later ⊢
      rwa [split, show Demand.firstFault? front machine = none from governed]

/-- After the last look nothing can fail any more. -/
theorem last {look : Except ExecutionFault α} {demands : List Demand} (result : α → β)
    (governed : Governed look demands machine) :
    Governed (look >>= fun value => .ok (result value)) demands machine := by
  rw [← List.append_nil demands]
  exact governed.bind fun value _ => .pure (result value)

/-- A demand that is met asks for nothing. -/
theorem of_met {demand : Demand} {look : Except ExecutionFault α} (met : demand.Met machine)
    (found : ∃ value, look = .ok value) : Governed look [demand] machine := by
  obtain ⟨value, rfl⟩ := found
  simp [Governed, Demand.firstFault?, met]

/-- A demand that is not met is what a look fails with. -/
theorem of_not_met {demand : Demand} {look : Except ExecutionFault α}
    (unmet : ¬ demand.Met machine) (failed : look = .error demand.fault) :
    Governed look [demand] machine := by
  subst failed
  simp [Governed, Demand.firstFault?, unmet]

end Governed

/-- A range of memory is checked for lying inside it. -/
theorem Location.governed_check_memory (address : UInt64) (machine : Machine) (width : Width) :
    Governed ((Location.memory address).check machine width) [.range address width] machine := by
  by_cases inside : address.toNat + width.bytes ≤ machine.memory.size
  · exact .of_met inside ⟨(), by rw [check, Memory.check, if_pos inside]; rfl⟩
  · exact .of_not_met inside (by rw [check, Memory.check, if_neg inside]; rfl)

theorem Location.governed_read_memory (address : UInt64) (machine : Machine) (width : Width) :
    Governed ((Location.memory address).read machine width) [.range address width] machine := by
  by_cases inside : address.toNat + width.bytes ≤ machine.memory.size
  · exact .of_met inside ⟨_, by rw [read, Memory.read, Memory.check, if_pos inside]; rfl⟩
  · exact .of_not_met inside (by rw [read, Memory.read, Memory.check, if_neg inside]; rfl)

theorem Operand.governed_check (operand : Operand) (machine : Machine)
    (index : Option NaturalIndex) (width : Width) :
    Governed ((operand.location machine index).check machine width)
      (operand.demands machine index width) machine := by
  unfold location demands
  split
  next => exact Location.governed_check_memory _ _ _
  next => exact .pure ()

theorem Operand.governed_read (operand : Operand) (machine : Machine)
    (index : Option NaturalIndex) (width : Width) :
    Governed ((operand.location machine index).read machine width)
      (operand.demands machine index width) machine := by
  unfold location demands
  split
  next => exact Location.governed_read_memory _ _ _
  next => exact .pure _

/-- A source is read where it is indirect, and can be computed where it is not. -/
theorem Operand.governed_read_or (operand : Operand) (machine : Machine)
    (index : Option NaturalIndex) (width : Width) (value : UInt64) :
    Governed
      (if operand.indirect then (operand.location machine index).read machine width else .ok value)
      (operand.demands machine index width) machine := by
  by_cases indirect : operand.indirect
  · rw [if_pos indirect]
    exact operand.governed_read machine index width
  · rw [if_neg indirect, demands, if_neg indirect]
    exact .pure value

namespace Instruction

theorem governed_carrierValue (instruction : Instruction) (machine : Machine) :
    Governed (instruction.carrierValue machine)
      (instruction.carrier.demands machine instruction.carrierIndex? instruction.operationWidth)
      machine :=
  Operand.governed_read_or _ _ _ _ _

theorem governed_moveValue (instruction : Instruction) (form : MoveForm) (machine : Machine) :
    Governed (instruction.moveValue form machine)
      (instruction.operand2.demands machine (instruction.moveIndexes form).2 form.valueWidth)
      machine :=
  Operand.governed_read_or _ _ _ _ _

end Instruction

/-! ## The divisor -/

/-- A width has room for what its bytes spell. -/
theorem Memory.decode_window_lt (memory : Memory) (start : Nat) (width : Width) :
    LittleEndian.decode (memory.window start width.bytes) < 2 ^ (8 * width.bytes) := by
  have short : (memory.window start width.bytes).length ≤ width.bytes := by
    simp only [window, Array.length_toList, Array.size_extract]
    omega
  rw [Nat.pow_mul]
  exact Nat.lt_of_lt_of_le (LittleEndian.decode_lt _) (Nat.pow_le_pow_right (by decide) short)

/-- What is read is the number that the bytes spell, which the width has room for. -/
theorem Memory.toNat_read {memory : Memory} {address : UInt64} {width : Width} {value : UInt64}
    (found : memory.read address width = .ok value) :
    value.toNat = LittleEndian.decode (memory.window address.toNat width.bytes)
      ∧ value.toNat < 2 ^ (8 * width.bytes) := by
  unfold read at found
  split at found
  next => contradiction
  next =>
    injection found with same
    subst same
    have room := memory.decode_window_lt address.toNat width
    have word : 2 ^ (8 * width.bytes) ≤ 2 ^ 64 :=
      Nat.pow_le_pow_right (by decide) (Nat.mul_le_mul_left 8 width.bytes_le)
    have kept : (UInt64.ofNat (LittleEndian.decode
        (memory.window address.toNat width.bytes))).toNat
          = LittleEndian.decode (memory.window address.toNat width.bytes) := by
      rw [UInt64.toNat_ofNat', Nat.mod_eq_of_lt (Nat.lt_of_lt_of_le room word)]
    exact ⟨kept, by rw [kept]; exact room⟩

/-- What is read of the operand with the immediate is its number, cut to the width. -/
theorem Instruction.toNat_carrierValue {instruction : Instruction} {machine : Machine}
    {value : UInt64} (read : instruction.carrierValue machine = .ok value) :
    value.toNat = instruction.sourceNumber machine
      % 2 ^ (8 * instruction.operationWidth.bytes) := by
  by_cases indirect : instruction.carrier.indirect
  · rw [carrierValue, if_pos indirect, Operand.location, if_pos indirect, Location.read] at read
    rw [sourceNumber, if_pos indirect]
    cases found : machine.memory.read (displace instruction.carrierIndex?
        (machine.register instruction.carrier.register)) instruction.operationWidth with
    | error fault =>
        rw [found] at read
        contradiction
    | ok word =>
        rw [found] at read
        injection read with same
        subst same
        obtain ⟨spelled, room⟩ := Memory.toNat_read found
        rw [← spelled, Nat.mod_eq_of_lt room]
  · rw [carrierValue, if_neg indirect] at read
    injection read with same
    subst same
    have immediate : ((instruction.immediate?.map UInt32.toUInt64).getD 0).toNat
        = (instruction.immediate?.map UInt32.toNat).getD 0 := by
      cases instruction.immediate? <;> rfl
    -- The sum wraps at a multiple of what the width has room for.
    have divides : 2 ^ (8 * instruction.operationWidth.bytes) ∣ 2 ^ 64 :=
      Nat.pow_dvd_pow 2 (Nat.mul_le_mul_left 8 instruction.operationWidth.bytes_le)
    rw [sourceNumber, if_neg indirect, Width.toNat_truncate, UInt64.toNat_add, immediate,
      Width.bits, Nat.mod_mod_of_dvd _ divides]

/-- An operation fails exactly if it divides by a number that is cut to zero. -/
theorem BinaryOp.governed_eval (op : BinaryOp) {width : Width} (left : UInt64) {right : UInt64}
    {number : Nat} (cut : right.toNat = number % 2 ^ (8 * width.bytes)) (machine : Machine) :
    Governed (op.eval width left right)
      (if op.divides then [.divisor number width] else []) machine := by
  have zero : right = 0 ↔ number % 2 ^ (8 * width.bytes) = 0 := by
    rw [← cut]
    exact ⟨fun same => by rw [same]; rfl, fun same => UInt64.toNat.inj same⟩
  have divided (quotient : UInt64) :
      Governed (if right = 0 then .error .divisionByZero else .ok (width.truncate quotient))
        [.divisor number width] machine := by
    by_cases nothing : right = 0
    · exact .of_not_met (fun met => met (zero.mp nothing)) (if_pos nothing)
    · exact .of_met (fun none => nothing (zero.mpr none)) ⟨_, if_neg nothing⟩
  cases op with
  | div | divu | mod | modu => exact divided _
  | add | sub | mul | mulu | and | or | xor | shl | shr => exact .pure _

/-! ## Every instruction -/

theorem Instruction.governed_effect (instruction : Instruction) (machine : Machine) :
    Governed (instruction.effect machine) (instruction.demands machine) machine := by
  have source := instruction.governed_carrierValue machine
  unfold effect demands
  cases instruction.opcode with
  | nop => exact .pure _
  | ret => exact .pure _
  | unary op => exact source.bind fun value _ => (Operand.governed_check _ _ _ _).last _
  | binary op =>
      refine (Operand.governed_read _ _ _ _).bind fun left _ => source.bind fun right read => ?_
      exact (op.governed_eval left (toNat_carrierValue read) machine).last _
  | push => exact source.bind fun value _ => (Location.governed_check_memory _ _ _).last _
  | pop =>
      exact (Location.governed_read_memory _ _ _).bind fun value _ =>
        (Operand.governed_check _ _ _ _).last _
  | move form =>
      exact (instruction.governed_moveValue form machine).bind fun value _ =>
        (Operand.governed_check _ _ _ _).last _

/-- What could be read at a location can be stored there. -/
theorem Location.store_of_read {location : Location} {machine : Machine} {width : Width}
    {found : UInt64} (read : location.read machine width = .ok found) (value : UInt64) :
    ∃ after, location.store width value machine = .ok () after := by
  rw [store_eq, check_of_read read]
  exact ⟨_, rfl⟩

/-- **The faults of an instruction.** It fails with a fault exactly if a demand of that fault is
not met and all demands before it are, and then changes nothing; it succeeds exactly if all of its
demands are met. The store of a binary operation demands nothing, as it cannot fail once the target
was read. -/
theorem execute_fails_first_unmet (instruction : Instruction) (machine : Machine) :
    (∀ fault after, execute instruction machine = .error fault after ↔
      after = machine ∧ ∃ front demand rest, instruction.demands machine = front ++ demand :: rest
        ∧ (∀ earlier ∈ front, earlier.Met machine) ∧ ¬ demand.Met machine
        ∧ fault = demand.fault)
      ∧ ((∃ outcome after, execute instruction machine = .ok outcome after) ↔
        ∀ demand ∈ instruction.demands machine, demand.Met machine)
      ∧ (∀ op left value, instruction.opcode = .binary op →
        (instruction.operand1.location machine none).read machine instruction.operationWidth
            = .ok left →
          ∃ after, (instruction.operand1.location machine none).store instruction.operationWidth
            value machine = .ok () after) := by
  have governed := instruction.governed_effect machine
  refine ⟨?_, ?_, ?_⟩
  · intro fault after
    rw [execute_eq_error_iff, governed.eq_error_iff, Demand.firstFault?_eq_some_iff, and_comm]
  · rw [← Demand.firstFault?_eq_none_iff, ← governed.eq_ok_iff, execute_eq]
    cases instruction.effect machine with
    | error fault => simp
    | ok writes => simp
  · intro op left value binary read
    exact Location.store_of_read read value

end RegisterVM
