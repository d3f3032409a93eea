import RegisterVM.Machine.Run
import RegisterVM.Proofs.Checked.Execution

/-!
# Runs without a defect

The cycle and the run of the machine in the operations that may come upon a
defect, with all that a cycle traces and a count of instructions that has room
for 64 bits. The main result is `comes_upon_no_defect`: whatever the bytes, the
instruction, the machine and the limit, each operation on them comes to what the
machine's own definition gives. The count has room because a cycle that succeeds
leaves fewer bytes in front of the instruction pointer than there were.
-/

namespace RegisterVM.Checked

/-- Runs one cycle; the instruction is listed for the trace before it is carried out. -/
def step (machine : Machine) : Except Defect (Report Outcome) := do
  match ← (sliceFrom machine.memory machine.ip).run with
  | .error fault => return ⟨[], .error (.execution (.memory fault)), machine⟩
  | .ok bytes =>
      match ← (decode bytes).run with
      | .error fault => return ⟨[], .error (.decode fault), machine⟩
      | .ok decoded =>
          let entry := LogRecord.trace machine.ip decoded.instruction
          let _ ← text decoded.instruction
          match ← (execute decoded.instruction).run.run machine with
          | (.error fault, after) => return ⟨[entry], .error (.execution fault), after⟩
          | (.ok outcome, after) => return ⟨[entry], .ok outcome, after.advance decoded.size⟩

theorem run_answer {ε α : Type} (result : Except ε α) :
    (answer result).run = (.ok result : Except Defect (Except ε α)) :=
  rfl

theorem step_eq (machine : Machine) : step machine = .ok machine.step := by
  simp only [step, Machine.step, sliceFrom_eq, decode_eq, text_eq, execute_eq, run_answer,
    run_safely, ok_bind, machine.fetch_eq]
  cases machine.memory.sliceFrom machine.ip with
  | error fault => rfl
  | ok bytes =>
      simp only
      cases RegisterVM.decode bytes with
      | error fault => rfl
      | ok decoded =>
          simp only
          cases RegisterVM.execute decoded.instruction machine <;> rfl

/-- Goes on with a run of which `executed` instructions are already behind, counted in 64 bits. -/
def runFrom (limit : Option Nat) (executed : Nat) (log : List LogRecord) (machine : Machine) :
    Except Defect (Report Nat) :=
  if limit.all (executed < ·) then
    match stepped : step machine with
    | .error defect => .error defect
    | .ok ⟨entries, .ok .continue, after⟩ => do
        runFrom limit (← add 64 executed 1) (entries.reverse ++ log) after
    | .ok ⟨entries, .ok .halt, after⟩ => do
        let executed ← add 64 executed 1
        return ⟨log.reverse ++ entries ++ [.halted machine.ip executed], .ok executed, after⟩
    | .ok ⟨entries, .error fault, after⟩ =>
        return ⟨log.reverse ++ entries ++ [.faulted machine.ip fault], .error fault, after⟩
  else
    return ⟨log.reverse ++ [.stopped machine.ip executed], .ok executed, machine⟩
termination_by machine.remaining
decreasing_by
  rw [step_eq] at stepped
  exact Machine.remaining_step_lt (Except.ok.inj stepped)

/-- Runs the machine, up to a limit if there is one. -/
def run (limit : Option Nat) (machine : Machine) : Except Defect (Report Nat) :=
  runFrom limit 0 [] machine

/-- The instructions behind a run and the bytes in front of it are together less than the count
has room for, as each instruction takes up some of the bytes. -/
theorem runFrom_eq (limit : Option Nat) {executed : Nat} (log : List LogRecord)
    {machine : Machine} (room : executed + machine.remaining < 2 ^ 64) :
    runFrom limit executed log machine = .ok (machine.runFrom limit executed log) := by
  induction measure : machine.remaining using Nat.strongRecOn
    generalizing executed log machine with
  | ind size ih =>
      subst measure
      rw [runFrom, Machine.runFrom_eq]
      split
      next going =>
        -- Bytes are in front of a machine whose cycle succeeds, so one more can be counted.
        split
        next defect stepped =>
          rw [step_eq] at stepped
          contradiction
        next entries after stepped =>
          rw [step_eq] at stepped
          have same := Except.ok.inj stepped
          have shorter := Machine.remaining_step_lt same
          rw [same, add_eq (by omega), ok_bind]
          exact ih _ shorter _ (by omega) rfl
        next entries after stepped =>
          rw [step_eq] at stepped
          have same := Except.ok.inj stepped
          have shorter := Machine.remaining_step_lt same
          rw [same, add_eq (by omega)]
          rfl
        next entries fault after stepped =>
          rw [step_eq] at stepped
          rw [Except.ok.inj stepped]
          rfl
      next => rfl

theorem run_eq (limit : Option Nat) (machine : Machine) :
    run limit machine = .ok (machine.run limit) := by
  have bound : machine.memory.size < 2 ^ 64 := machine.memory.size_lt
  refine runFrom_eq limit [] ?_
  unfold Machine.remaining
  omega

/-- **No defect is come upon.** Splitting any index, reading any bytes, writing, listing and
carrying out any instruction, and running any machine for a cycle or up to any limit, in operations
that have no result for a case taken to be impossible, a place or range outside, a division by
zero, a sum or product without room or a shift by too much, give what the machine's own definitions
give. -/
theorem comes_upon_no_defect :
    (∀ width raw, naturalIndex width raw = .ok (NaturalIndex.decode width raw))
      ∧ (∀ bytes, (decode bytes).run = .ok (RegisterVM.decode bytes))
      ∧ (∀ instruction, encode instruction = .ok instruction.encode)
      ∧ (∀ instruction, text instruction = .ok instruction.text)
      ∧ (∀ instruction machine, (execute instruction).run.run machine =
          match RegisterVM.execute instruction machine with
          | .ok outcome after => .ok (.ok outcome, after)
          | .error fault after => .ok (.error fault, after))
      ∧ (∀ machine, step machine = .ok machine.step)
      ∧ (∀ limit machine, run limit machine = .ok (machine.run limit)) := by
  refine ⟨naturalIndex_eq, fun bytes => ?_, encode_eq, text_eq, fun instruction machine => ?_,
    step_eq, run_eq⟩
  · rw [decode_eq]
    rfl
  · rw [execute_eq, run_safely]
    cases RegisterVM.execute instruction machine <;> rfl

end RegisterVM.Checked
