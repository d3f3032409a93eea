import RegisterVM.Proofs.Machine.Atomicity
import RegisterVM.Proofs.Machine.Trace

/-!
# How a run ends

A run carries out instructions other than `RET` and then ends in one of three
ways: its limit is used up, a `RET` comes next, or a cycle fails. `Ends` says
this of a report as a whole, its log included, and holds of the report of every
run and of no other (`run_eq_iff_ends`), so that runs with different limits are
compared without going through their cycles again.
-/

namespace RegisterVM

/-- The instruction that a record shows, if it is that of a cycle. -/
def LogRecord.instruction? : LogRecord → Option Instruction
  | trace _ instruction => some instruction
  | _ => none

/-- The instructions that a log shows, in their order. -/
def tracedInstructions (log : List LogRecord) : List Instruction :=
  log.filterMap (·.instruction?)

namespace Machine

@[simp] theorem tracedInstructions_traceRecords (address : UInt64) (program : List Decoded) :
    tracedInstructions (traceRecords address program) = program.map (·.instruction) := by
  induction program generalizing address with
  | nil => rfl
  | cons decoded program ih => exact congrArg (decoded.instruction :: ·) (ih _)

theorem tracedInstructions_append (front later : List LogRecord) :
    tracedInstructions (front ++ later)
      = tracedInstructions front ++ tracedInstructions later :=
  List.filterMap_append

/-- The reports that a run may come to: the instructions of `program`, none of
them a `RET`, are behind it, and then the limit is used up, a `RET` is carried
out, or a cycle fails. -/
inductive Ends (limit : Option Nat) (machine : Machine) : Report Nat → Prop
  | stopped {program : List Decoded} {after : Machine}
      (executed : machine.Executes program after)
      (straight : ∀ decoded ∈ program, decoded.instruction.opcode ≠ .ret)
      (spent : limit = some program.length) :
      Ends limit machine
        { log := traceRecords machine.ip program ++ [.stopped after.ip program.length]
          answer := .ok program.length
          machine := after }
  | halted {program : List Decoded} {middle : Machine} {last : Decoded} {after : Machine}
      (executed : machine.Executes program middle)
      (straight : ∀ decoded ∈ program, decoded.instruction.opcode ≠ .ret)
      (left : ∀ bound ∈ limit, program.length < bound)
      (completed : middle.Completes last after) (returns : last.instruction.opcode = .ret) :
      Ends limit machine
        { log := traceRecords machine.ip program
            ++ [.trace middle.ip last.instruction, .halted middle.ip (program.length + 1)]
          answer := .ok (program.length + 1)
          machine := after }
  | faulted {program : List Decoded} {middle : Machine} {entries : List LogRecord}
      {fault : MachineFault}
      (executed : machine.Executes program middle)
      (straight : ∀ decoded ∈ program, decoded.instruction.opcode ≠ .ret)
      (left : ∀ bound ∈ limit, program.length < bound)
      (failed : middle.step = ⟨entries, .error fault, middle⟩) :
      Ends limit machine
        { log := traceRecords machine.ip program ++ entries ++ [.faulted middle.ip fault]
          answer := .error fault
          machine := middle }

theorem run_along {machine middle : Machine} {program : List Decoded} {limit : Option Nat}
    (executed : machine.Executes program middle)
    (straight : ∀ decoded ∈ program, decoded.instruction.opcode ≠ .ret)
    (enough : ∀ bound ∈ limit, program.length ≤ bound) :
    machine.run limit
      = middle.runFrom limit program.length (traceRecords machine.ip program).reverse := by
  rw [run, runFrom_along executed straight limit 0 (by simpa using enough), Nat.zero_add,
    List.append_nil]

/-- A way to end leaves a run no choice: cycles do not branch. -/
theorem Ends.run_eq {limit : Option Nat} {machine : Machine} {report : Report Nat}
    (ends : machine.Ends limit report) : machine.run limit = report := by
  cases ends with
  | stopped executed straight spent =>
      subst spent
      rw [run_along executed straight (by simp), runFrom_eq, if_neg (by simp)]
      simp
  | halted executed straight left completed returns =>
      rw [run_along executed straight fun bound given => Nat.le_of_lt (left bound given),
        runFrom_eq, if_pos (all_lt_of_forall left), completed.2,
        (Opcode.outcome_eq_halt_iff _).mpr returns]
      simp
  | faulted executed straight left failed =>
      rw [run_along executed straight fun bound given => Nat.le_of_lt (left bound given),
        runFrom_eq, if_pos (all_lt_of_forall left), failed]
      simp

/-- Every run ends in one of the three ways. -/
theorem exists_ends (limit : Option Nat) (machine : Machine) :
    ∃ report, machine.Ends limit report := by
  obtain ⟨program, middle, executed, straight, ended⟩ := exists_executes_end machine
  have room : (∀ bound ∈ limit, program.length < bound)
      ∨ ∃ bound, limit = some bound ∧ bound ≤ program.length := by
    cases limit with
    | none => exact .inl (by simp)
    | some bound =>
        rcases Nat.lt_or_ge program.length bound with left | within
        · exact .inl (by simpa using left)
        · exact .inr ⟨bound, rfl, within⟩
  rcases room with left | ⟨bound, given, within⟩
  · rcases ended with ⟨last, after, completed, returns⟩ | ⟨entries, fault, after, failed⟩
    · exact ⟨_, .halted executed straight left completed returns⟩
    · obtain rfl := step_error failed
      exact ⟨_, .faulted executed straight left failed⟩
  · -- The limit is met on the way, behind the front part of the program.
    rw [← List.take_append_drop bound program] at executed
    obtain ⟨after, front, -⟩ := executed.split
    refine ⟨_, .stopped front ?_ ?_⟩
    · exact fun decoded there => straight decoded (List.mem_of_mem_take there)
    · rw [List.length_take_of_le within]
      exact given

theorem ends_run (limit : Option Nat) (machine : Machine) :
    machine.Ends limit (machine.run limit) := by
  obtain ⟨report, ends⟩ := exists_ends limit machine
  rwa [ends.run_eq]

/-- A run comes to the report that describes how it ends, and to no other. -/
theorem run_eq_iff_ends {limit : Option Nat} {machine : Machine} {report : Report Nat} :
    machine.run limit = report ↔ machine.Ends limit report := by
  constructor
  · rintro rfl
    exact ends_run limit machine
  · exact Ends.run_eq

end Machine

end RegisterVM
