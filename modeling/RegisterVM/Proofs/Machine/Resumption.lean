import RegisterVM.Proofs.Machine.Ending

/-!
# Runs with different limits

A limit only cuts a run short. What a run with a limit leaves can be run on, and
comes to what a larger limit would have come to at once (`Ends.behind`); a run
that ended for another reason ends so under every larger limit and under none
(`Ends.halted_of_le`, `Ends.faulted_of_le`). The machine that a fault leaves is
the one that the failing cycle started on, so that the fault comes back whenever
it is run again.
-/

namespace RegisterVM.Machine

/-- Behind cycles without a `RET`, a run comes to what it would come to if it
started there, with the cycles counted. -/
theorem Ends.behind {machine middle : Machine} {front : List Decoded} {limit : Option Nat}
    {report : Report Nat} (first : machine.Executes front middle)
    (straight : ∀ decoded ∈ front, decoded.instruction.opcode ≠ .ret)
    (ends : middle.Ends limit report) :
    ∃ log, machine.Ends (limit.map (front.length + ·))
      ⟨log, report.answer.map (front.length + ·), report.machine⟩ := by
  have shifted (program : List Decoded) (left : ∀ bound ∈ limit, program.length < bound) :
      ∀ bound ∈ limit.map (front.length + ·), (front ++ program).length < bound := by
    intro bound given
    obtain ⟨smaller, there, rfl⟩ := Option.map_eq_some_iff.mp given
    rw [List.length_append]
    exact Nat.add_lt_add_left (left smaller there) _
  cases ends with
  | stopped executed straightOn spent =>
      have whole := Ends.stopped (first.append executed)
        (List.forall_mem_append.mpr ⟨straight, straightOn⟩) rfl
      rw [List.length_append] at whole
      rw [spent]
      exact ⟨_, whole⟩
  | halted executed straightOn left completed returns =>
      have whole := Ends.halted (first.append executed)
        (List.forall_mem_append.mpr ⟨straight, straightOn⟩) (shifted _ left) completed returns
      rw [List.length_append, Nat.add_assoc] at whole
      exact ⟨_, whole⟩
  | faulted executed straightOn left failed =>
      exact ⟨_, .faulted (first.append executed)
        (List.forall_mem_append.mpr ⟨straight, straightOn⟩) (shifted _ left) failed⟩

/-- A limit above one that was not met is not met either, and no limit never
is. -/
theorem room_of_le {m count : Nat} {limit : Option Nat} (larger : ∀ bound ∈ limit, m ≤ bound)
    (left : ∀ bound ∈ some m, count < bound) : ∀ bound ∈ limit, count < bound := by
  intro bound given
  exact Nat.lt_of_lt_of_le (left m rfl) (larger bound given)

/-- A run that answers and shows no `RET` has come to its limit. -/
theorem Ends.executes_of_stopped {machine after : Machine} {limit : Option Nat}
    {log : List LogRecord} {count : Nat} (ends : machine.Ends limit ⟨log, .ok count, after⟩)
    (shown : ∀ instruction ∈ tracedInstructions log, instruction.opcode ≠ .ret) :
    ∃ program, machine.Executes program after ∧ program.length = count
      ∧ ∀ decoded ∈ program, decoded.instruction.opcode ≠ .ret := by
  cases ends with
  | stopped executed straight spent => exact ⟨_, executed, rfl, straight⟩
  | halted executed _ left completed returns =>
      refine absurd returns (shown _ ?_)
      rw [tracedInstructions_append]
      exact List.mem_append_right _ List.mem_cons_self

/-- A run that shows a `RET` ended with it. -/
theorem Ends.halted_of_le {machine : Machine} {m : Nat} {limit : Option Nat}
    {log : List LogRecord} {count : Nat} {after : Machine}
    (larger : ∀ bound ∈ limit, m ≤ bound)
    (ends : machine.Ends (some m) ⟨log, .ok count, after⟩)
    (returned : ∃ instruction ∈ tracedInstructions log, instruction.opcode = .ret) :
    machine.Ends limit ⟨log, .ok count, after⟩ := by
  cases ends with
  | stopped executed straight spent =>
      obtain ⟨instruction, shown, returns⟩ := returned
      rw [tracedInstructions_append, tracedInstructions_traceRecords] at shown
      rcases List.mem_append.mp shown with carriedOut | absent
      · obtain ⟨decoded, there, rfl⟩ := List.mem_map.mp carriedOut
        exact absurd returns (straight decoded there)
      · contradiction
  | halted executed straight left completed returns =>
      exact .halted executed straight (room_of_le larger left) completed returns

/-- A run that failed below its limit fails below a larger one. -/
theorem Ends.faulted_of_le {machine : Machine} {m : Nat} {limit : Option Nat}
    {log : List LogRecord} {fault : MachineFault} {after : Machine}
    (larger : ∀ bound ∈ limit, m ≤ bound)
    (ends : machine.Ends (some m) ⟨log, .error fault, after⟩) :
    machine.Ends limit ⟨log, .error fault, after⟩ := by
  cases ends with
  | faulted executed straight left failed =>
      exact .faulted executed straight (room_of_le larger left) failed

/-- The machine that a fault leaves fails with it again in its first cycle. -/
theorem Ends.faulted_again {machine after : Machine} {limit : Option Nat}
    {log : List LogRecord} {fault : MachineFault}
    (ends : machine.Ends limit ⟨log, .error fault, after⟩) {again : Option Nat}
    (positive : again ≠ some 0) : ∃ log, after.Ends again ⟨log, .error fault, after⟩ := by
  cases ends with
  | faulted _ _ _ failed =>
      refine ⟨_, .faulted (.nil after) (by simp) ?_ failed⟩
      intro bound given
      refine Nat.pos_of_ne_zero fun zero => positive ?_
      rw [← zero]
      exact given

/-- **Limits compose.** If a limit of `m` ends a run in front of a `RET`, a limit
of `n` more comes to what a run with the limit `n` comes to from there, with `m`
added to its count. If the run reached a `RET` or failed, then so, with the same
report, do a run with any larger limit and one without; and the machine that a
fault left fails with it again, unchanged, in every run that may take a step. -/
theorem run_resumes (machine : Machine) (m n : Nat) :
    (∀ log middle, machine.run (some m) = ⟨log, .ok m, middle⟩ →
      (∀ instruction ∈ tracedInstructions log, instruction.opcode ≠ .ret) →
        (machine.run (some (m + n))).machine = (middle.run (some n)).machine
          ∧ (machine.run (some (m + n))).answer = (middle.run (some n)).answer.map (m + ·))
    ∧ (∀ log count after, machine.run (some m) = ⟨log, .ok count, after⟩ →
      (∃ instruction ∈ tracedInstructions log, instruction.opcode = .ret) →
        machine.run (some (m + n)) = ⟨log, .ok count, after⟩
          ∧ machine.run none = ⟨log, .ok count, after⟩)
    ∧ (∀ log fault after, machine.run (some m) = ⟨log, .error fault, after⟩ →
      machine.run (some (m + n)) = ⟨log, .error fault, after⟩
        ∧ machine.run none = ⟨log, .error fault, after⟩
        ∧ ∀ again, again ≠ some 0 →
          (after.run again).answer = .error fault ∧ (after.run again).machine = after) := by
  have larger : ∀ bound ∈ some (m + n), m ≤ bound := by simp
  have unlimited : ∀ bound ∈ (none : Option Nat), m ≤ bound := by simp
  refine ⟨?_, ?_, ?_⟩
  · intro log middle ran straight
    obtain ⟨program, executed, rfl, goesOn⟩ :=
      (run_eq_iff_ends.mp ran).executes_of_stopped straight
    obtain ⟨whole, ends⟩ := Ends.behind executed goesOn (ends_run (some n) middle)
    rw [Option.map_some] at ends
    rw [ends.run_eq]
    exact ⟨rfl, rfl⟩
  · intro log count after ran returned
    have ends := run_eq_iff_ends.mp ran
    exact ⟨(ends.halted_of_le larger returned).run_eq,
      (ends.halted_of_le unlimited returned).run_eq⟩
  · intro log fault after ran
    have ends := run_eq_iff_ends.mp ran
    refine ⟨(ends.faulted_of_le larger).run_eq, (ends.faulted_of_le unlimited).run_eq, ?_⟩
    intro again positive
    obtain ⟨_, repeated⟩ := ends.faulted_again positive
    rw [repeated.run_eq]
    exact ⟨rfl, rfl⟩

/-- An addition and a `RET`, which a limit of two is just enough for, and the end
of memory behind them. -/
theorem run_resumes_exactly_at_limit :
    let add : Instruction := ⟨.binary .add, ⟨.r1, false⟩, ⟨.r2, false⟩, .generic false none⟩
    let ret : Instruction := ⟨.ret, ⟨.r0, false⟩, ⟨.r0, false⟩, .generic false none⟩
    let machine := ofMemory ⟨#[0x0c, 0x21, 0x04, 0x00], by decide⟩
    let middle := (machine.setRegister .r1 0).advance 2
    let behind := middle.advance 2
    let returned : Report Nat := ⟨[.trace 0 add, .trace 2 ret, .halted 2 2], .ok 2, behind⟩
    let fault : MachineFault := .decode (.truncated 2 0)
    let failed : Report Nat := ⟨[.faulted 4 fault], .error fault, behind⟩
    (machine.run (some 1) = ⟨[.trace 0 add, .stopped 2 1], .ok 1, middle⟩
        ∧ (machine.run (some (1 + 1))).answer = (middle.run (some 1)).answer.map (1 + ·))
      ∧ (machine.run (some 2) = returned ∧ machine.run (some (2 + 3)) = returned
        ∧ machine.run none = returned)
      ∧ (behind.run (some 1) = failed ∧ behind.run (some (1 + 3)) = failed
        ∧ behind.run none = failed ∧ (behind.run (some 2)).answer = .error fault) := by
  intro add ret machine middle behind returned fault failed
  have addition : machine.Completes ⟨add, 2⟩ middle := by
    subst failed returned behind middle machine add
    exact ⟨rfl, rfl⟩
  have returnAfter : middle.Completes ⟨ret, 2⟩ behind := by
    subst failed returned behind middle machine ret
    exact ⟨rfl, rfl⟩
  have ended : behind.step = ⟨[], .error fault, behind⟩ := by
    subst failed returned fault behind middle machine
    rfl
  have goesOn : ∀ decoded ∈ [(⟨add, 2⟩ : Decoded)], decoded.instruction.opcode ≠ .ret := by
    simp [add]
  have stopping : machine.run (some 1) = ⟨[.trace 0 add, .stopped 2 1], .ok 1, middle⟩ :=
    Ends.run_eq (.stopped (.cons addition (.nil middle)) goesOn rfl)
  have returning : machine.run (some 2) = returned :=
    Ends.run_eq (.halted (.cons addition (.nil middle)) goesOn (by simp) returnAfter rfl)
  have failing : behind.run (some 1) = failed :=
    Ends.run_eq (.faulted (.nil behind) (by simp) (by simp) ended)
  have shownFirst : ∀ instruction ∈ tracedInstructions [.trace 0 add, .stopped 2 1],
      instruction.opcode ≠ .ret := by
    simp [tracedInstructions, LogRecord.instruction?, add]
  have shownLast : ret ∈ tracedInstructions [.trace 0 add, .trace 2 ret, .halted 2 2] := by
    simp [tracedInstructions, LogRecord.instruction?]
  obtain ⟨_, along⟩ := (run_resumes machine 1 1).1 _ _ stopping shownFirst
  obtain ⟨limited, unlimited⟩ :=
    (run_resumes machine 2 3).2.1 _ _ _ returning ⟨ret, shownLast, rfl⟩
  obtain ⟨limitedToo, unlimitedToo, again⟩ := (run_resumes behind 1 3).2.2 _ _ _ failing
  exact ⟨⟨stopping, along⟩, ⟨returning, limited, unlimited⟩,
    failing, limitedToo, unlimitedToo, (again (some 2) (by simp)).1⟩

end RegisterVM.Machine
