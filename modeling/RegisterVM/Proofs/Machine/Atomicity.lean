import RegisterVM.Machine.Cycle

/-!
# A failure changes nothing

Each operation that can fail either does all of its work or leaves the state
exactly as it found it: the accesses to memory, the instructions, and the cycle
of the machine. For an instruction this is `execute_error`, which holds because
whatever a later access could refuse was already looked at before the first
write.
-/

namespace RegisterVM

namespace Memory

theorem load_error {address : UInt64} {bytes : List UInt8} {memory after : Memory}
    {fault : MemoryFault} (failed : load address bytes memory = .error fault after) :
    after = memory := by
  unfold load at failed
  split at failed
  next =>
    injection failed with _ same
    exact same.symm
  next => contradiction

theorem write_error {address : UInt64} {width : Width} {value : UInt64} {memory after : Memory}
    {fault : MemoryFault} (failed : write address width value memory = .error fault after) :
    after = memory :=
  load_error failed

end Memory

namespace Machine

theorem load_error {address : UInt64} {bytes : List UInt8} {machine after : Machine}
    {fault : MachineFault} (failed : load address bytes machine = .error fault after) :
    after = machine := by
  unfold load at failed
  split at failed
  next memory refused =>
    injection failed with _ same
    rw [← same, Memory.load_error refused]
  next => contradiction

/-- A cycle fails at the fetch, which only looks, or in its instruction. -/
theorem step_error {machine after : Machine} {entries : List LogRecord} {fault : MachineFault}
    (failed : machine.step = ⟨entries, .error fault, after⟩) : after = machine := by
  unfold step at failed
  split at failed
  next =>
    injection failed with _ _ same
    exact same.symm
  next decoded _ =>
    simp only at failed
    split at failed
    next kept stopped =>
      injection failed with _ _ same
      rw [← same]
      exact execute_error stopped
    next =>
      injection failed with _ answer
      contradiction

end Machine

/-- **Atomicity.** Whatever fails leaves the whole machine as it was: its
registers, its instruction pointer, and the size and every byte of its memory. -/
theorem failure_leaves_machine (machine : Machine) :
    (∀ instruction fault after,
      execute instruction machine = .error fault after → after = machine)
    ∧ (∀ entries fault after,
      machine.step = ⟨entries, .error fault, after⟩ → after = machine)
    ∧ (∀ address bytes fault after,
      Machine.load address bytes machine = .error fault after → after = machine)
    ∧ (∀ address width value fault after,
      Memory.write address width value machine.memory = .error fault after →
        after = machine.memory)
    ∧ (∀ address bytes fault after,
      Memory.load address bytes machine.memory = .error fault after →
        after = machine.memory) := by
  refine ⟨?_, ?_, ?_, ?_, ?_⟩
  · intro instruction fault after failed
    exact execute_error failed
  · intro entries fault after failed
    exact Machine.step_error failed
  · intro address bytes fault after failed
    exact Machine.load_error failed
  · intro address width value fault after failed
    exact Memory.write_error failed
  · intro address bytes fault after failed
    exact Memory.load_error failed

/-- Five bytes that hold `POP32 @R1` with a displacement, and a stack pointer at
the last slot: the pop can read its slot, but not store what it read. -/
theorem failure_leaves_machine_popping :
    let image : Memory := ⟨#[0xac, 0x09, 0x08, 0x00, 0x00], by decide⟩
    let machine := (Machine.ofMemory image).setRegister .r0 1
    let pop : Instruction := ⟨.pop, ⟨.r1, true⟩, ⟨.r0, false⟩, .generic false (some 8)⟩
    (∃ after, execute pop machine = .error (.memory (.outOfBounds 8 4)) after ∧ after = machine)
    ∧ (∃ entries after,
        machine.step = ⟨entries, .error (.execution (.memory (.outOfBounds 8 4))), after⟩
          ∧ after = machine)
    ∧ (∃ after, Machine.load 4 [1, 2] machine = .error (.execution (.memory (.outOfBounds 4 2))) after
        ∧ after = machine)
    ∧ (∃ after, Memory.write 2 .double 7 machine.memory = .error (.outOfBounds 2 4) after
        ∧ after = machine.memory)
    ∧ (∃ after, Memory.load 5 [1] machine.memory = .error (.outOfBounds 5 1) after
        ∧ after = machine.memory) := by
  intro image machine pop
  obtain ⟨executing, stepping, loading, writing, filling⟩ := failure_leaves_machine machine
  have popped : execute pop machine = .error (.memory (.outOfBounds 8 4)) machine := rfl
  have fetched : machine.fetch = .ok ⟨pop, 4⟩ := by
    subst machine pop image
    rfl
  have stepped : machine.step
      = ⟨[.trace 0 pop], .error (.execution (.memory (.outOfBounds 8 4))), machine⟩ := by
    simp only [Machine.step, fetched, popped]
    rfl
  have loaded : Machine.load 4 [1, 2] machine
      = .error (.execution (.memory (.outOfBounds 4 2))) machine := rfl
  have written : Memory.write 2 .double 7 machine.memory
      = .error (.outOfBounds 2 4) machine.memory := rfl
  have filled : Memory.load 5 [1] machine.memory = .error (.outOfBounds 5 1) machine.memory := rfl
  exact ⟨⟨_, popped, executing _ _ _ popped⟩, ⟨_, _, stepped, stepping _ _ _ stepped⟩,
    ⟨_, loaded, loading _ _ _ _ loaded⟩, ⟨_, written, writing _ _ _ _ _ written⟩,
    ⟨_, filled, filling _ _ _ _ filled⟩⟩

end RegisterVM
