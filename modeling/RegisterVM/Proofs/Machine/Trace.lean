import RegisterVM.Machine.Run

/-!
# Traces of cycles

`Completes` is one cycle that succeeds, as a relation between machines, and
`Executes` a sequence of such cycles with the instructions that they carried out.
A run that has the steps left follows the cycles as long as none of them was a
`RET`, and logs a record of each (`runFrom_along`). Each of them takes at least two
bytes off those in front of the instruction pointer (`Executes.remaining_le`), so
that they come to an end (`exists_executes_end`).
-/

namespace RegisterVM

theorem Opcode.outcome_eq_halt_iff (opcode : Opcode) : opcode.outcome = .halt ↔ opcode = .ret := by
  cases opcode <;> simp [outcome]

theorem Opcode.outcome_of_ne_ret {opcode : Opcode} (goesOn : opcode ≠ .ret) :
    opcode.outcome = .continue := by
  cases opcode with
  | ret => exact absurd rfl goesOn
  | _ => rfl

namespace Machine

/-- The cycle of `machine` succeeds: it carries out the instruction `decoded`
and leaves the machine `after`. -/
def Completes (machine : Machine) (decoded : Decoded) (after : Machine) : Prop :=
  machine.fetch = .ok decoded
    ∧ machine.step = ⟨[.trace machine.ip decoded.instruction],
        .ok decoded.instruction.opcode.outcome, after⟩

/-- Cycles that all succeed lead from one machine to another, and carry out the
instructions of `program` in their order. -/
inductive Executes : Machine → List Decoded → Machine → Prop
  | nil (machine : Machine) : Executes machine [] machine
  | cons {machine middle after : Machine} {decoded : Decoded} {program : List Decoded} :
      Completes machine decoded middle → Executes middle program after →
      Executes machine (decoded :: program) after

theorem completes_of_execute {machine later : Machine} {decoded : Decoded} {outcome : Outcome}
    (fetched : machine.fetch = .ok decoded)
    (executed : execute decoded.instruction machine = .ok outcome later) :
    machine.Completes decoded (later.advance decoded.size) := by
  obtain ⟨-, -, rfl⟩ := execute_ok executed
  refine ⟨fetched, ?_⟩
  simp only [step, fetched, executed]

theorem step_of_fetch_error {machine : Machine} {fault : MachineFault}
    (refused : machine.fetch = .error fault) : machine.step = ⟨[], .error fault, machine⟩ := by
  simp only [step, refused]

theorem step_of_execute_error {machine after : Machine} {decoded : Decoded}
    {fault : ExecutionFault} (fetched : machine.fetch = .ok decoded)
    (failed : execute decoded.instruction machine = .error fault after) :
    machine.step
      = ⟨[.trace machine.ip decoded.instruction], .error (.execution fault), after⟩ := by
  simp only [step, fetched, failed]

theorem completes_of_step {machine after : Machine} {entries : List LogRecord}
    {outcome : Outcome} (stepped : machine.step = ⟨entries, .ok outcome, after⟩) :
    ∃ decoded, machine.Completes decoded after
      ∧ outcome = decoded.instruction.opcode.outcome := by
  obtain ⟨decoded, later, fetched, executed, rfl⟩ := step_ok stepped
  exact ⟨decoded, completes_of_execute fetched executed, (execute_ok executed).2.2⟩

theorem Completes.ip {machine after : Machine} {decoded : Decoded}
    (completed : machine.Completes decoded after) :
    after.ip.toNat = machine.ip.toNat + decoded.size
      ∧ after.memory.size = machine.memory.size
      ∧ 2 ≤ decoded.size ∧ machine.ip.toNat + decoded.size ≤ machine.memory.size := by
  obtain ⟨fetched, stepped⟩ := completed
  obtain ⟨_, again, moved, sameSize⟩ := ip_step stepped
  obtain rfl := Except.ok.inj (fetched.symm.trans again)
  exact ⟨moved, sameSize, fetch_size fetched⟩

/-- The instruction pointer after a cycle, as it was computed. -/
theorem Completes.ip_eq {machine after : Machine} {decoded : Decoded}
    (completed : machine.Completes decoded after) :
    after.ip = machine.ip + UInt64.ofNat decoded.size := by
  obtain ⟨fetched, stepped⟩ := completed
  obtain ⟨_, later, again, executed, rfl⟩ := step_ok stepped
  obtain rfl := Except.ok.inj (fetched.symm.trans again)
  rw [advance, (execute_ok executed).1]

theorem Executes.append {machine middle after : Machine} {front later : List Decoded}
    (first : machine.Executes front middle) (second : middle.Executes later after) :
    machine.Executes (front ++ later) after := by
  induction first with
  | nil => exact second
  | cons completed _ ih => exact .cons completed (ih second)

/-- Cycles can be cut in two wherever one of them ends. -/
theorem Executes.split {machine after : Machine} {front later : List Decoded}
    (executed : machine.Executes (front ++ later) after) :
    ∃ middle, machine.Executes front middle ∧ middle.Executes later after := by
  induction front generalizing machine with
  | nil => exact ⟨machine, .nil machine, executed⟩
  | cons decoded front ih =>
      cases executed with
      | cons completed rest =>
          obtain ⟨middle, first, second⟩ := ih rest
          exact ⟨middle, .cons completed first, second⟩

theorem Executes.remaining_le {machine after : Machine} {program : List Decoded}
    (executed : machine.Executes program after) :
    2 * program.length + after.remaining ≤ machine.remaining := by
  induction executed with
  | nil => simp
  | cons completed _ ih =>
      obtain ⟨moved, sameSize, header, fits⟩ := completed.ip
      simp only [remaining, List.length_cons] at ih ⊢
      omega

/-- Every machine comes, after cycles that carry out other instructions, to a
`RET` or to a cycle that fails. -/
theorem exists_executes_end (machine : Machine) :
    ∃ program middle, machine.Executes program middle
      ∧ (∀ decoded ∈ program, decoded.instruction.opcode ≠ .ret)
      ∧ ((∃ last after, middle.Completes last after ∧ last.instruction.opcode = .ret)
        ∨ ∃ entries fault after, middle.step = ⟨entries, .error fault, after⟩) := by
  induction measure : machine.remaining using Nat.strongRecOn generalizing machine with
  | ind size ih =>
      subst measure
      match stepped : machine.step with
      | ⟨entries, .error fault, after⟩ =>
          exact ⟨[], machine, .nil machine, fun _ absent => absurd absent List.not_mem_nil,
            .inr ⟨entries, fault, after, stepped⟩⟩
      | ⟨entries, .ok outcome, after⟩ =>
          obtain ⟨decoded, completed, same⟩ := completes_of_step stepped
          by_cases returns : decoded.instruction.opcode = .ret
          · exact ⟨[], machine, .nil machine, fun _ absent => absurd absent List.not_mem_nil,
              .inl ⟨decoded, after, completed, returns⟩⟩
          · obtain ⟨program, middle, executed, straight, ended⟩ :=
              ih _ (remaining_step_lt stepped) after rfl
            refine ⟨decoded :: program, middle, .cons completed executed, ?_, ended⟩
            intro one there
            rcases List.mem_cons.mp there with rfl | later
            · exact returns
            · exact straight one later

/-! ## Runs along a trace -/

theorem all_lt_of_forall {limit : Option Nat} {count : Nat}
    (enough : ∀ bound ∈ limit, count < bound) : limit.all (count < ·) = true := by
  rw [Option.all_eq_true]
  exact fun bound given => decide_eq_true (enough bound given)

/-- The trace records of instructions that were carried out one behind the other
from `address` on. -/
def traceRecords (address : UInt64) : List Decoded → List LogRecord
  | [] => []
  | decoded :: program =>
      .trace address decoded.instruction
        :: traceRecords (address + UInt64.ofNat decoded.size) program

/-- A run that has the steps left goes on behind the cycles of a trace without a
`RET`, with a record of each of them. -/
theorem runFrom_along {machine middle : Machine} {program : List Decoded}
    (executed : machine.Executes program middle)
    (straight : ∀ decoded ∈ program, decoded.instruction.opcode ≠ .ret)
    (limit : Option Nat) (count : Nat)
    (enough : ∀ bound ∈ limit, count + program.length ≤ bound) (log : List LogRecord) :
    machine.runFrom limit count log
      = middle.runFrom limit (count + program.length)
          ((traceRecords machine.ip program).reverse ++ log) := by
  induction executed generalizing count log with
  | nil => rfl
  | @cons machine next after decoded program completed _ ih =>
      have shift : count + (decoded :: program).length = count + 1 + program.length := by
        rw [List.length_cons]
        omega
      rw [shift] at enough ⊢
      have going : ∀ bound ∈ limit, count < bound := by
        intro bound given
        have := enough bound given
        omega
      rw [runFrom_eq, if_pos (all_lt_of_forall going), completed.2,
        Opcode.outcome_of_ne_ret (straight decoded List.mem_cons_self)]
      simp only
      rw [ih (fun one there => straight one (List.mem_cons_of_mem _ there)) (count + 1) enough,
        traceRecords, completed.ip_eq]
      simp

/-- What it logs aside, such a run only moves on. -/
theorem runFrom_of_executes {machine middle : Machine} {program : List Decoded}
    (executed : machine.Executes program middle)
    (straight : ∀ decoded ∈ program, decoded.instruction.opcode ≠ .ret)
    (limit : Option Nat) (count : Nat)
    (enough : ∀ bound ∈ limit, count + program.length ≤ bound) (log : List LogRecord) :
    ∃ entries, machine.runFrom limit count log
      = middle.runFrom limit (count + program.length) entries :=
  ⟨_, runFrom_along executed straight limit count enough log⟩

/-- A run that has a step left ends with the `RET` that comes next. -/
theorem runFrom_of_ret {machine after : Machine} {last : Decoded}
    (completed : machine.Completes last after) (returns : last.instruction.opcode = .ret)
    (limit : Option Nat) (count : Nat) (enough : ∀ bound ∈ limit, count < bound)
    (log : List LogRecord) :
    (machine.runFrom limit count log).answer = .ok (count + 1)
      ∧ (machine.runFrom limit count log).machine = after := by
  rw [runFrom_eq, if_pos (all_lt_of_forall enough), completed.2,
    (Opcode.outcome_eq_halt_iff _).mpr returns]
  exact ⟨rfl, rfl⟩

/-- A run that has a step left ends with the fault of the cycle that comes
next. -/
theorem runFrom_of_error {machine after : Machine} {entries : List LogRecord}
    {fault : MachineFault} (failed : machine.step = ⟨entries, .error fault, after⟩)
    (limit : Option Nat) (count : Nat) (enough : ∀ bound ∈ limit, count < bound)
    (log : List LogRecord) :
    (machine.runFrom limit count log).answer = .error fault
      ∧ (machine.runFrom limit count log).machine = after := by
  rw [runFrom_eq, if_pos (all_lt_of_forall enough), failed]
  exact ⟨rfl, rfl⟩

end Machine

end RegisterVM
