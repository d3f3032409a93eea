import RegisterVM.Proofs.Machine.Termination

/-!
# Assembled programs

A program laid out in memory at the instruction pointer runs as its records do
when they are executed one after the other, without any fetch. `KeepsLater` is
the one condition: what an instruction writes must not change the code of a later
one. `executes_of_executeAll` is the simulation; it moves along the program with
the code still to come as its invariant.
-/

namespace RegisterVM

/-- The encodings of the instructions, one behind the other. -/
def assemble (program : List Instruction) : List UInt8 :=
  program.flatMap (·.encode)

/-- Executes the instructions one after the other, up to the first that fails. -/
def executeAll : List Instruction → EStateM ExecutionFault Machine Unit
  | [] => pure ()
  | instruction :: program => do
      let _ ← execute instruction
      executeAll program

/-- The memory has `bytes` from `start` on. -/
def Memory.Holds (memory : Memory) (start : Nat) (bytes : List UInt8) : Prop :=
  ∀ place < bytes.length, memory.bytes[start + place]? = bytes[place]?

/-- Of the instructions with their code from `start` on, executed one after the
other, none that succeeds changes a byte of the code of a later one. -/
def Machine.KeepsLater (machine : Machine) (start : Nat) : List Instruction → Prop
  | [] => True
  | instruction :: program =>
      match execute instruction machine with
      | .error _ _ => True
      | .ok _ after =>
          (∀ place < start + (assemble (instruction :: program)).length,
            start + instruction.encode.length ≤ place →
              after.memory.bytes[place]? = machine.memory.bytes[place]?)
          ∧ after.KeepsLater (start + instruction.encode.length) program

instance (memory : Memory) (start : Nat) (bytes : List UInt8) :
    Decidable (memory.Holds start bytes) :=
  inferInstanceAs (Decidable (∀ place < bytes.length, memory.bytes[start + place]? = bytes[place]?))

instance Machine.decidableKeepsLater (machine : Machine) (start : Nat) :
    (program : List Instruction) → Decidable (machine.KeepsLater start program)
  | [] => isTrue trivial
  | instruction :: program =>
      match ran : execute instruction machine with
      | .error _ _ => isTrue (by simp only [KeepsLater, ran])
      | .ok _ after =>
          have := after.decidableKeepsLater (start + instruction.encode.length) program
          decidable_of_iff
            ((∀ place < start + (assemble (instruction :: program)).length,
              start + instruction.encode.length ≤ place →
                after.memory.bytes[place]? = machine.memory.bytes[place]?)
            ∧ after.KeepsLater (start + instruction.encode.length) program)
            (by simp only [KeepsLater, ran])

theorem assemble_cons (instruction : Instruction) (program : List Instruction) :
    assemble (instruction :: program) = instruction.encode ++ assemble program :=
  List.flatMap_cons

theorem assemble_append (front later : List Instruction) :
    assemble (front ++ later) = assemble front ++ assemble later :=
  List.flatMap_append

theorem executeAll_cons {instruction : Instruction} {program : List Instruction}
    {machine after : Machine}
    (executed : executeAll (instruction :: program) machine = .ok () after) :
    ∃ outcome middle, execute instruction machine = .ok outcome middle
      ∧ executeAll program middle = .ok () after := by
  simp only [executeAll, bind, EStateM.bind] at executed
  split at executed
  next outcome middle first => exact ⟨outcome, middle, first, executed⟩
  next => contradiction

/-! ## Code in memory -/

/-- A slice that starts inside memory, or right behind it, holds the rest of the
bytes. -/
theorem Memory.sliceFrom_of_le {memory : Memory} {address : UInt64}
    (inside : address.toNat ≤ memory.size) :
    memory.sliceFrom address = .ok (memory.bytes.toList.drop address.toNat) := by
  have granted : memory.check address 0 = .ok () := if_pos inside
  have rest : (memory.bytes.extract address.toNat memory.size).toList
      = memory.bytes.toList.drop address.toNat := by
    rw [Array.toList_extract, List.extract_eq_take_drop]
    exact List.take_of_length_le (by simp [Memory.size])
  simp only [sliceFrom, granted, rest]

namespace Memory.Holds

theorem front {memory : Memory} {start : Nat} {first second : List UInt8}
    (held : memory.Holds start (first ++ second)) : memory.Holds start first := by
  intro place inside
  rw [held place (by rw [List.length_append]; omega), List.getElem?_append_left inside]

/-- What is behind is still there after a change that keeps it. -/
theorem later {memory after : Memory} {start : Nat} {first second : List UInt8}
    (held : memory.Holds start (first ++ second))
    (kept : ∀ place < start + (first ++ second).length, start + first.length ≤ place →
      after.bytes[place]? = memory.bytes[place]?) :
    after.Holds (start + first.length) second := by
  intro place inside
  rw [List.length_append] at kept
  rw [kept _ (by omega) (Nat.le_add_right _ _), Nat.add_assoc,
    held _ (by rw [List.length_append]; omega),
    List.getElem?_append_right (Nat.le_add_right _ _), Nat.add_sub_cancel_left]

theorem sliceFrom {memory : Memory} {address : UInt64} {bytes : List UInt8}
    (held : memory.Holds address.toNat bytes) (some : 0 < bytes.length) :
    ∃ trailing, memory.sliceFrom address = .ok (bytes ++ trailing) := by
  have inside : address.toNat + (bytes.length - 1) < memory.size := by
    have last := held (bytes.length - 1) (by omega)
    rw [List.getElem?_eq_getElem (by omega)] at last
    exact (Array.getElem?_eq_some_iff.mp last).1
  have front : (memory.bytes.toList.drop address.toNat).take bytes.length = bytes := by
    apply List.ext_getElem?
    intro place
    rw [List.getElem?_take, List.getElem?_drop, Array.getElem?_toList]
    split
    next within => exact held place within
    next beyond => exact (List.getElem?_eq_none (Nat.le_of_not_lt beyond)).symm
  refine ⟨(memory.bytes.toList.drop address.toNat).drop bytes.length, ?_⟩
  rw [Memory.sliceFrom_of_le (by omega)]
  conv => lhs; rw [← List.take_append_drop bytes.length (memory.bytes.toList.drop address.toNat)]
  rw [front]

end Memory.Holds

namespace Machine

theorem fetch_of_holds (machine : Machine) {instruction : Instruction} {rest : List UInt8}
    (formed : instruction.WellFormed)
    (held : machine.memory.Holds machine.ip.toNat (instruction.encode ++ rest)) :
    machine.fetch = .ok ⟨instruction, instruction.encode.length⟩ := by
  obtain ⟨trailing, sliced⟩ := held.front.sliceFrom (Nat.succ_pos _)
  simp only [fetch_eq, sliced, decode_encode_append formed]

/-! ## The instruction pointer plays no part in an instruction -/

theorem apply_with_ip (machine : Machine) (ip : UInt64) (write : Write) :
    apply { machine with ip := ip } write = { machine.apply write with ip := ip } := by
  obtain ⟨location, width, value⟩ := write
  cases location <;> rfl

theorem foldl_apply_with_ip (writes : List Write) (machine : Machine) (ip : UInt64) :
    writes.foldl apply { machine with ip := ip }
      = { writes.foldl apply machine with ip := ip } := by
  induction writes generalizing machine with
  | nil => rfl
  | cons write writes ih => rw [List.foldl_cons, List.foldl_cons, apply_with_ip, ih]

theorem effect_with_ip (instruction : Instruction) (machine : Machine) (ip : UInt64) :
    instruction.effect { machine with ip := ip } = instruction.effect machine :=
  rfl

theorem execute_with_ip (instruction : Instruction) (machine : Machine) (ip : UInt64) :
    execute instruction { machine with ip := ip } =
      match execute instruction machine with
      | .error fault after => .error fault { after with ip := ip }
      | .ok outcome after => .ok outcome { after with ip := ip } := by
  rw [execute_eq, execute_eq, effect_with_ip]
  cases instruction.effect machine with
  | error fault => rfl
  | ok writes => exact congrArg (EStateM.Result.ok _) (foldl_apply_with_ip writes machine ip)

/-! ## The run of a program -/

/-- The cycles along the front of a program do what executing its instructions
does, and arrive at the code that is still to come. -/
theorem executes_of_executeAll {front later : List Instruction} {machine middle : Machine}
    {ip : UInt64} (formed : ∀ instruction ∈ front, instruction.WellFormed)
    (held : machine.memory.Holds ip.toNat (assemble (front ++ later)))
    (kept : machine.KeepsLater ip.toNat (front ++ later))
    (executed : executeAll front machine = .ok () middle) :
    ∃ next : UInt64,
      Executes { machine with ip := ip } (front.map fun one => ⟨one, one.encode.length⟩)
        { middle with ip := next }
      ∧ next.toNat = ip.toNat + (assemble front).length
      ∧ middle.memory.Holds next.toNat (assemble later) := by
  induction front generalizing machine ip with
  | nil =>
      injection executed with _ same
      subst same
      exact ⟨ip, .nil _, rfl, held⟩
  | cons instruction front ih =>
      obtain ⟨outcome, after, first, others⟩ := executeAll_cons executed
      rw [List.cons_append] at held kept
      simp only [KeepsLater, first] at kept
      obtain ⟨undisturbed, keptOn⟩ := kept
      rw [assemble_cons] at held undisturbed
      have there : execute instruction { machine with ip := ip }
          = .ok outcome { after with ip := ip } := by rw [execute_with_ip, first]
      have completed := completes_of_execute
        (fetch_of_holds { machine with ip := ip }
          (formed instruction List.mem_cons_self) held) there
      -- The instruction pointer stands on the next record, not yet wrapped.
      have moved : (ip + UInt64.ofNat instruction.encode.length).toNat
          = ip.toNat + instruction.encode.length := completed.ip.1
      have heldOn := held.later undisturbed
      rw [← moved] at heldOn keptOn
      obtain ⟨next, along, place, rest⟩ :=
        ih (fun one later => formed one (List.mem_cons_of_mem _ later)) heldOn keptOn others
      refine ⟨next, .cons completed along, ?_, rest⟩
      rw [place, moved, assemble_cons, List.length_append, Nat.add_assoc]

theorem run_of_executeAll {front later : List Instruction} {machine middle : Machine}
    (formed : ∀ instruction ∈ front, instruction.WellFormed)
    (straight : ∀ instruction ∈ front, instruction.opcode ≠ .ret)
    (held : machine.memory.Holds machine.ip.toNat (assemble (front ++ later)))
    (kept : machine.KeepsLater machine.ip.toNat (front ++ later))
    (executed : executeAll front machine = .ok () middle) :
    ∃ (next : UInt64) (log : List LogRecord),
      machine.run none = runFrom none front.length log { middle with ip := next }
      ∧ next.toNat = machine.ip.toNat + (assemble front).length
      ∧ middle.memory.Holds next.toNat (assemble later) := by
  obtain ⟨next, along, place, rest⟩ := executes_of_executeAll formed held kept executed
  have goesOn : ∀ decoded ∈ front.map fun one => (⟨one, one.encode.length⟩ : Decoded),
      decoded.instruction.opcode ≠ .ret := by
    intro decoded there
    obtain ⟨instruction, listed, rfl⟩ := List.mem_map.mp there
    exact straight instruction listed
  obtain ⟨log, followed⟩ := runFrom_of_executes along goesOn none 0 (by simp) []
  rw [List.length_map, Nat.zero_add] at followed
  exact ⟨next, log, followed, place, rest⟩

theorem execute_of_ret {instruction : Instruction} (returns : instruction.opcode = .ret)
    (machine : Machine) : execute instruction machine = .ok .halt machine := by
  rw [execute_eq, Instruction.effect, returns]
  rfl

end Machine

/-- **Refinement.** Let well-formed instructions other than `RET`, and a
well-formed `RET` behind them, stand in memory at the instruction pointer, and let
none of them change the code of a later one. If all can be executed one after the
other, the run does the same, counts them and stops behind the `RET`; if one of
them is the first to fail, the run fails with its fault, in the machine that it
was executed on and with the instruction pointer on its record. -/
theorem run_assembled (body : List Instruction) (last : Instruction) (machine : Machine)
    (formed : ∀ instruction ∈ body ++ [last], instruction.WellFormed)
    (straight : ∀ instruction ∈ body, instruction.opcode ≠ .ret)
    (returns : last.opcode = .ret)
    (held : machine.memory.Holds machine.ip.toNat (assemble (body ++ [last])))
    (kept : machine.KeepsLater machine.ip.toNat (body ++ [last])) :
    (∀ after, executeAll body machine = .ok () after →
      (machine.run none).answer = .ok (body.length + 1)
        ∧ (machine.run none).machine.registers = after.registers
        ∧ (machine.run none).machine.memory = after.memory
        ∧ (machine.run none).machine.ip.toNat
          = machine.ip.toNat + (assemble (body ++ [last])).length)
    ∧ (∀ front failing rest before fault stopped, body = front ++ failing :: rest →
      executeAll front machine = .ok () before →
      execute failing before = .error fault stopped →
      (machine.run none).answer = .error (.execution fault)
        ∧ (machine.run none).machine.registers = before.registers
        ∧ (machine.run none).machine.memory = before.memory
        ∧ (machine.run none).machine.ip.toNat
          = machine.ip.toNat + (assemble front).length) := by
  refine ⟨?_, ?_⟩
  · intro after executed
    have formedBody : ∀ instruction ∈ body, instruction.WellFormed := by
      intro instruction listed
      exact formed instruction (List.mem_append_left _ listed)
    have formedLast : last.WellFormed :=
      formed last (List.mem_append_right _ List.mem_cons_self)
    obtain ⟨next, log, run, place, rest⟩ :=
      Machine.run_of_executeAll formedBody straight held kept executed
    have completed := Machine.completes_of_execute
      (Machine.fetch_of_holds { after with ip := next } formedLast rest)
      (Machine.execute_of_ret returns _)
    obtain ⟨answer, final⟩ :=
      Machine.runFrom_of_ret completed returns none body.length (by simp) log
    rw [run, answer, final]
    refine ⟨rfl, rfl, rfl, ?_⟩
    rw [completed.ip.1, place, assemble_append, List.length_append, Nat.add_assoc,
      assemble_cons, List.length_append]
    rfl
  · intro front failing rest before fault stopped split executed failed
    subst split
    rw [List.append_assoc] at held kept
    have formedFront : ∀ instruction ∈ front, instruction.WellFormed := by
      intro instruction listed
      exact formed instruction (List.mem_append_left _ (List.mem_append_left _ listed))
    have straightFront : ∀ instruction ∈ front, instruction.opcode ≠ .ret := by
      intro instruction listed
      exact straight instruction (List.mem_append_left _ listed)
    have formedFailing : failing.WellFormed := formed failing (by simp)
    obtain ⟨next, log, run, place, code⟩ :=
      Machine.run_of_executeAll formedFront straightFront held kept executed
    -- What `failing` was executed on is what the run executes it on, but for the
    -- instruction pointer.
    rw [execute_error failed] at failed
    have there : execute failing { before with ip := next }
        = .error fault { before with ip := next } := by rw [Machine.execute_with_ip, failed]
    have stepped := Machine.step_of_execute_error
      (Machine.fetch_of_holds { before with ip := next } formedFailing code) there
    obtain ⟨answer, final⟩ :=
      Machine.runFrom_of_error stepped none front.length (by simp) log
    rw [run, answer, final]
    exact ⟨rfl, rfl, rfl, place⟩

/-- A push that overwrites its own code, and a division behind it, first by zero
and then by seven. -/
theorem run_assembled_push_divide :
    let push : Instruction := ⟨.push, ⟨.r1, false⟩, ⟨.r0, false⟩, .generic true none⟩
    let divide : Instruction := ⟨.binary .div, ⟨.r1, false⟩, ⟨.r2, false⟩, .generic true none⟩
    let ret : Instruction := ⟨.ret, ⟨.r0, false⟩, ⟨.r0, false⟩, .generic false none⟩
    let image : Memory :=
      ⟨#[0, 0, 0, 0, 0, 0, 0, 0, 0x6b, 0x01, 0x50, 0x21, 0x04, 0x00], by decide⟩
    let start := ((Machine.ofMemory image).setRegister .r0 10).setRegister .r1 42
    let machine := { start with ip := 8 }
    let divisible := machine.setRegister .r2 7
    image.Holds 8 (assemble [push, divide, ret])
      ∧ machine.KeepsLater 8 [push, divide, ret] ∧ divisible.KeepsLater 8 [push, divide, ret]
      ∧ (machine.run none).answer = .error (.execution .divisionByZero)
      ∧ (machine.run none).machine.ip.toNat = 8 + (assemble [push]).length
      ∧ (divisible.run none).answer = .ok 3
      ∧ (divisible.run none).machine.ip.toNat = 8 + (assemble [push, divide, ret]).length := by
  intro push divide ret image start machine divisible
  have formed : ∀ instruction ∈ [push, divide] ++ [ret], instruction.WellFormed := by
    simp [push, divide, ret, Instruction.WellFormed, Opcode.moveForm?]
  have straight : ∀ instruction ∈ [push, divide], instruction.opcode ≠ .ret := by decide
  have held : image.Holds 8 (assemble [push, divide, ret]) := by decide
  have kept : machine.KeepsLater 8 [push, divide, ret] := by decide +kernel
  have keptToo : divisible.KeepsLater 8 [push, divide, ret] := by decide +kernel
  let filled : Memory :=
    ⟨#[0, 0, 42, 0, 0, 0, 0, 0, 0, 0, 0x50, 0x21, 0x04, 0x00], by decide⟩
  let before := { machine.setRegister .r0 2 with memory := filled }
  have pushed : executeAll [push] machine = .ok () before := by
    subst before filled divisible machine start image push
    rfl
  have failed : execute divide before = .error .divisionByZero before := by rfl
  have executed : executeAll [push, divide] divisible
      = .ok () ((before.setRegister .r2 7).setRegister .r1 6) := by
    subst before filled divisible machine start image push divide
    rfl
  obtain ⟨fault, _, _, place⟩ :=
    (run_assembled [push, divide] ret machine formed straight rfl held kept).2
      [push] divide [] before _ before rfl pushed failed
  obtain ⟨count, _, _, behind⟩ :=
    (run_assembled [push, divide] ret divisible formed straight rfl held keptToo).1 _ executed
  exact ⟨held, kept, keptToo, fault, place, count, behind⟩

end RegisterVM
