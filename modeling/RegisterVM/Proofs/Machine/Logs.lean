import Mathlib.Algebra.GroupWithZero.Nat
import RegisterVM.Proofs.Machine.Ending

/-!
# What the log of a run tells

A run logs a trace record of every instruction that it fetches and decodes, and then
one record of how it ended. The trace records follow the instruction pointer
(`Executes.traceRecords_concat`), so that the record of an instruction that fails
stands at the address where the run is left, and the last record of a run that halts
is that of the `RET`. What the records say is told with them: each trace record shows
its instruction at the sum of the sizes before it (`message_traceRecords`).
-/

namespace RegisterVM.Machine

theorem length_traceRecords (address : UInt64) (program : List Decoded) :
    (traceRecords address program).length = program.length := by
  induction program generalizing address with
  | nil => rfl
  | cons decoded program ih => exact congrArg (· + 1) (ih _)

theorem level_of_mem_traceRecords {address : UInt64} {program : List Decoded}
    {record : LogRecord} (logged : record ∈ traceRecords address program) :
    record.level = .trace := by
  induction program generalizing address with
  | nil => contradiction
  | cons decoded program ih =>
      rcases List.mem_cons.mp logged with rfl | later
      · rfl
      · exact ih later

/-- Where no address wraps, each record shows its instruction at the sum of the sizes of those
before it. -/
theorem message_traceRecords {address : UInt64} {program : List Decoded}
    (fits : address.toNat + (program.map (·.size)).sum < 2 ^ 64) :
    (traceRecords address program).map (·.message)
      = program.mapIdx fun place decoded =>
          Numeral.hexPadded 8 (address.toNat + ((program.take place).map (·.size)).sum)
            ++ ':' :: ' ' :: decoded.instruction.text := by
  induction program generalizing address with
  | nil => rfl
  | cons decoded program ih =>
      rw [List.map_cons, List.sum_cons] at fits
      have behind : (address + UInt64.ofNat decoded.size).toNat = address.toNat + decoded.size := by
        rw [UInt64.toNat_add, UInt64.toNat_ofNat']
        omega
      rw [traceRecords, List.map_cons, List.mapIdx_cons, ih (by rw [behind]; omega), behind]
      simp only [List.take_succ_cons, List.map_cons, List.sum_cons, Nat.add_assoc]
      rfl

/-- Instructions that end inside memory, or are none, end below the end of the address space. -/
theorem sum_sizes_lt {machine : Machine} {program : List Decoded}
    (inside : program ≠ [] →
      machine.ip.toNat + (program.map (·.size)).sum ≤ machine.memory.size) :
    machine.ip.toNat + (program.map (·.size)).sum < 2 ^ 64 := by
  by_cases none : program = []
  · rw [none]
    exact machine.ip.toNat_lt
  · exact Nat.lt_of_le_of_lt (inside none) machine.memory.size_lt

/-- Behind cycles that succeed, the instruction pointer stands at the sum of the sizes
of what they carried out. -/
theorem Executes.ip {machine middle : Machine} {program : List Decoded}
    (executed : machine.Executes program middle) :
    middle.ip.toNat = machine.ip.toNat + (program.map (·.size)).sum
      ∧ middle.memory.size = machine.memory.size := by
  induction executed with
  | nil => exact ⟨rfl, rfl⟩
  | cons completed _ ih =>
      obtain ⟨moved, sameSize, -, -⟩ := completed.ip
      obtain ⟨movedOn, sameSizeOn⟩ := ih
      refine ⟨?_, sameSizeOn.trans sameSize⟩
      rw [movedOn, moved, List.map_cons, List.sum_cons, Nat.add_assoc]

/-- Once a cycle has succeeded, the instruction pointer is inside memory or right behind
it. -/
theorem Executes.ip_le {machine middle : Machine} {program : List Decoded}
    (executed : machine.Executes program middle) (moving : program ≠ []) :
    middle.ip.toNat ≤ machine.memory.size := by
  induction executed with
  | nil => exact absurd rfl moving
  | cons completed rest ih =>
      obtain ⟨moved, sameSize, -, fits⟩ := completed.ip
      cases rest with
      | nil => rwa [moved]
      | cons completedNext _ =>
          rw [← sameSize]
          exact ih (List.cons_ne_nil _ _)

theorem Executes.ip_le_of_le {machine middle : Machine} {program : List Decoded}
    (executed : machine.Executes program middle)
    (inside : machine.ip.toNat ≤ machine.memory.size) :
    middle.ip.toNat ≤ middle.memory.size := by
  rw [executed.ip.2]
  by_cases still : program = []
  · subst still
    cases executed with
    | nil => exact inside
  · exact executed.ip_le still

/-- All that was carried out lies inside memory. -/
theorem Executes.sizes_le {machine middle : Machine} {program : List Decoded}
    (executed : machine.Executes program middle) (moving : program ≠ []) :
    machine.ip.toNat + (program.map (·.size)).sum ≤ machine.memory.size := by
  rw [← executed.ip.1]
  exact executed.ip_le moving

/-- What is fetched behind it lies inside memory, too. -/
theorem Executes.sizes_concat_le {machine middle : Machine} {program : List Decoded}
    {next : Decoded} (executed : machine.Executes program middle)
    (fetched : middle.fetch = .ok next) :
    machine.ip.toNat + ((program ++ [next]).map (·.size)).sum ≤ machine.memory.size := by
  obtain ⟨moved, sameSize⟩ := executed.ip
  obtain ⟨-, fits⟩ := fetch_size fetched
  rw [List.map_append, List.sum_append, ← Nat.add_assoc, ← moved, ← sameSize]
  exact fits

/-- The record of one instruction more stands where the cycles before it have left the
instruction pointer. -/
theorem Executes.traceRecords_concat {machine middle : Machine} {program : List Decoded}
    (executed : machine.Executes program middle) (next : Decoded) :
    traceRecords machine.ip (program ++ [next])
      = traceRecords machine.ip program ++ [.trace middle.ip next.instruction] := by
  induction executed with
  | nil => rfl
  | cons completed _ ih =>
      rw [List.cons_append, traceRecords, traceRecords, ← completed.ip_eq, ih]
      rfl

/-- A cycle that fails has nothing fetched and nothing logged, or it has logged the
instruction that cannot be carried out. -/
theorem step_error_cases {machine after : Machine} {entries : List LogRecord}
    {fault : MachineFault} (failed : machine.step = ⟨entries, .error fault, after⟩) :
    (machine.fetch = .error fault ∧ entries = [])
    ∨ ∃ decoded cause, machine.fetch = .ok decoded
      ∧ execute decoded.instruction machine = .error cause machine
      ∧ fault = .execution cause ∧ entries = [.trace machine.ip decoded.instruction] := by
  cases fetched : machine.fetch with
  | error cause =>
      rw [step_of_fetch_error fetched] at failed
      injection failed with logged answered
      injection answered with same
      exact .inl ⟨congrArg Except.error same, logged.symm⟩
  | ok decoded =>
      cases executed : execute decoded.instruction machine with
      | ok outcome later =>
          have completed := completes_of_execute fetched executed
          rw [completed.2] at failed
          injection failed with _ answered
          contradiction
      | error cause later =>
          have stepped := step_of_execute_error fetched executed
          rw [stepped] at failed
          injection failed with logged answered
          injection answered with same
          obtain rfl := execute_error executed
          exact .inr ⟨decoded, cause, rfl, executed, same.symm, logged.symm⟩

/-- **Logs.** The log of a run is one trace record for each instruction fetched, the
first at the instruction pointer and each other one behind the instruction before it,
and one closing record. A trace record says the address and the text of its
instruction. With `completed` the instructions carried out, which lead to the machine
that the run leaves, a run that answers has fetched these alone and counts them; it was
halted at the last of them, a `RET`, or stopped by its limit, and its closing record
says which, with the address and the count. A run that fails closes with the fault and
what this says, at the instruction pointer that it leaves; it has fetched one
instruction more, at just that address, if this cannot be carried out, and none if the
fetch itself failed. -/
theorem run_logs_cycles (limit : Option Nat) (machine : Machine) :
    ∃ fetched completed closing,
      (machine.run limit).log = traceRecords machine.ip fetched ++ [closing]
      ∧ (∀ record ∈ traceRecords machine.ip fetched, record.level = .trace)
      ∧ (traceRecords machine.ip fetched).map (·.message)
        = fetched.mapIdx (fun place decoded =>
            Numeral.hexPadded 8 (machine.ip.toNat + ((fetched.take place).map (·.size)).sum)
              ++ ':' :: ' ' :: decoded.instruction.text)
      ∧ closing.level = .debug
      ∧ (fetched ≠ [] →
          machine.ip.toNat + (fetched.map (·.size)).sum ≤ machine.memory.size)
      ∧ machine.Executes completed (machine.run limit).machine
      ∧ match (machine.run limit).answer with
        | .ok count =>
            fetched = completed ∧ (traceRecords machine.ip fetched).length = count
            ∧ ((∃ address last,
                (traceRecords machine.ip fetched).getLast? = some (.trace address last)
                  ∧ last.opcode = .ret ∧ closing = .halted address count
                  ∧ closing.message = "halted at ".toList ++ Numeral.hex address.toNat
                      ++ " after ".toList ++ Numeral.decimal count ++ " instructions".toList)
              ∨ (limit = some count ∧ closing = .stopped (machine.run limit).machine.ip count
                ∧ closing.message = "stopped at ".toList
                    ++ Numeral.hex (machine.run limit).machine.ip.toNat
                    ++ " after the step limit of ".toList ++ Numeral.decimal count))
        | .error fault =>
            closing = .faulted (machine.run limit).machine.ip fault
            ∧ closing.message = "fault at ".toList
                ++ Numeral.hex (machine.run limit).machine.ip.toNat ++ ':' :: ' ' :: fault.message
            ∧ (fault.message = match fault with
              | .decode (.invalidOperand code) =>
                  "decode failed: ".toList
                    ++ ("invalid operand encoding ".toList ++ Numeral.hex code.toNat)
              | .decode (.truncated needed available) =>
                  "decode failed: ".toList
                    ++ ("instruction truncated: needs ".toList ++ Numeral.decimal needed
                      ++ " bytes, ".toList ++ Numeral.decimal available ++ " available".toList)
              | .execution .divisionByZero =>
                  "execution failed: ".toList ++ "division by zero".toList
              | .execution (.memory (.outOfBounds address length)) =>
                  "execution failed: ".toList
                    ++ ("access of ".toList ++ Numeral.decimal length ++ " bytes at ".toList
                      ++ Numeral.hex address.toNat ++ " is outside memory".toList))
            ∧ ((∃ decoded cause, fault = .execution cause
                ∧ (machine.run limit).machine.fetch = .ok decoded
                ∧ execute decoded.instruction (machine.run limit).machine
                  = .error cause (machine.run limit).machine
                ∧ fetched = completed ++ [decoded]
                ∧ (traceRecords machine.ip fetched).getLast?
                  = some (.trace (machine.run limit).machine.ip decoded.instruction))
              ∨ ((machine.run limit).machine.fetch = .error fault ∧ fetched = completed)) := by
  have ends := ends_run limit machine
  generalize machine.run limit = report at ends ⊢
  have traced (program : List Decoded) :
      ∀ record ∈ traceRecords machine.ip program, record.level = .trace :=
    fun _ logged => level_of_mem_traceRecords logged
  have told {program : List Decoded} (within : program ≠ [] →
      machine.ip.toNat + (program.map (·.size)).sum ≤ machine.memory.size) :=
    message_traceRecords (sum_sizes_lt within)
  cases ends with
  | @stopped program after executed straight spent =>
      exact ⟨program, program, _, rfl, traced program, told executed.sizes_le, rfl,
        executed.sizes_le, executed, rfl, length_traceRecords _ _, .inr ⟨spent, rfl, rfl⟩⟩
  | @halted program middle last after executed straight left completed returns =>
      have whole : machine.Executes (program ++ [last]) after :=
        executed.append (.cons completed (.nil after))
      refine ⟨program ++ [last], program ++ [last], .halted middle.ip (program.length + 1), ?_,
        traced _, told whole.sizes_le, rfl, whole.sizes_le, whole, rfl, ?_,
        .inl ⟨middle.ip, _, ?_, returns, rfl, rfl⟩⟩
      · rw [executed.traceRecords_concat, List.append_assoc]
        rfl
      · rw [length_traceRecords]
        exact List.length_append
      · rw [executed.traceRecords_concat, List.getLast?_concat]
  | @faulted program middle entries fault executed straight left failed =>
      rcases step_error_cases failed with
        ⟨refused, rfl⟩ | ⟨decoded, cause, fetched, unable, rfl, rfl⟩
      · refine ⟨program, program, _, ?_, traced program, told executed.sizes_le, rfl,
          executed.sizes_le, executed, rfl, rfl, ?_, .inr ⟨refused, rfl⟩⟩
        · rw [List.append_nil]
        · rcases fault with (_ | ⟨_, _⟩) | (_ | ⟨_, _⟩) <;> rfl
      · have reached := executed.sizes_concat_le fetched
        refine ⟨program ++ [decoded], program, .faulted middle.ip (.execution cause), ?_,
          traced _, told fun _ => reached, rfl, fun _ => reached, executed, rfl, rfl, ?_,
          .inl ⟨decoded, cause, rfl, fetched, unable, rfl, ?_⟩⟩
        · rw [executed.traceRecords_concat]
        · rcases cause with _ | ⟨_, _⟩ <;> rfl
        · rw [executed.traceRecords_concat, List.getLast?_concat]

end RegisterVM.Machine
