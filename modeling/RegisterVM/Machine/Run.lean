import RegisterVM.Machine.Cycle

/-!
# Runs

A run repeats the cycle of the machine until a `RET`, a fault or a limit on the
number of instructions. Every run ends, with or without a limit, because each
instruction lies in front of the one before it.
-/

namespace RegisterVM.Machine

/-- Goes on with a run of which `executed` instructions and the records `log`,
the latest first, are already behind. -/
def runFrom (limit : Option Nat) (executed : Nat) (log : List LogRecord) (machine : Machine) :
    Report Nat :=
  if limit.all (executed < ·) then
    let address := machine.ip
    match _stepped : machine.step with
    | ⟨entries, .ok .continue, after⟩ =>
        runFrom limit (executed + 1) (entries.reverse ++ log) after
    | ⟨entries, .ok .halt, after⟩ =>
        { log := log.reverse ++ entries ++ [.halted address (executed + 1)]
          answer := .ok (executed + 1)
          machine := after }
    | ⟨entries, .error fault, after⟩ =>
        { log := log.reverse ++ entries ++ [.faulted address fault]
          answer := .error fault
          machine := after }
  else
    { log := log.reverse ++ [.stopped machine.ip executed]
      answer := .ok executed
      machine }
termination_by machine.remaining
decreasing_by exact remaining_step_lt _stepped

/-- Runs the machine, up to `limit` instructions if there is one. The answer is
the number of instructions carried out, the `RET` included. -/
def run (limit : Option Nat) (machine : Machine) : Report Nat :=
  machine.runFrom limit 0 []

/-- What going on with a run comes to, one cycle at a time. -/
theorem runFrom_eq (limit : Option Nat) (executed : Nat) (log : List LogRecord)
    (machine : Machine) :
    machine.runFrom limit executed log
      = if limit.all (executed < ·) then
          match machine.step with
          | ⟨entries, .ok .continue, after⟩ =>
              after.runFrom limit (executed + 1) (entries.reverse ++ log)
          | ⟨entries, .ok .halt, after⟩ =>
              { log := log.reverse ++ entries ++ [.halted machine.ip (executed + 1)]
                answer := .ok (executed + 1)
                machine := after }
          | ⟨entries, .error fault, after⟩ =>
              { log := log.reverse ++ entries ++ [.faulted machine.ip fault]
                answer := .error fault
                machine := after }
        else
          { log := log.reverse ++ [.stopped machine.ip executed]
            answer := .ok executed
            machine } := by
  rw [runFrom]
  rcases machine.step with ⟨entries, fault | (_ | _), after⟩ <;> rfl

end RegisterVM.Machine
