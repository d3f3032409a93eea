import RegisterVM.Instruction.Codec
import RegisterVM.Machine.Execute
import RegisterVM.Machine.Log

/-!
# The cycle of the machine

A cycle fetches the instruction at the instruction pointer, carries it out, and
moves the instruction pointer behind it. A cycle that fails leaves the machine
as it was, with the instruction pointer on the instruction at fault.

`remaining_advance_lt` is what ends a run: a cycle that succeeds leaves fewer
bytes in front of the instruction pointer.
-/

namespace RegisterVM

/-- What an operation of the machine comes to: the records it logged, its answer
or the fault that ended it, and the machine after it. -/
structure Report (α : Type) where
  log : List LogRecord
  answer : Except MachineFault α
  machine : Machine

namespace Machine

/-- Reads the instruction at the instruction pointer. Of the bytes in front of
it, only as many are looked at as an instruction can take. -/
def fetch (machine : Machine) : Except MachineFault Decoded :=
  match machine.memory.check machine.ip 0 with
  | .error fault => .error (.execution (.memory fault))
  | .ok () =>
      match decodeWithin (machine.memory.size - machine.ip.toNat)
          (machine.memory.window machine.ip.toNat Header.longest) with
      | .error fault => .error (.decode fault)
      | .ok decoded => .ok decoded

/-- The look at a few bytes finds what reading all of memory from the instruction
pointer on would find. -/
theorem fetch_eq (machine : Machine) :
    machine.fetch =
      match machine.memory.sliceFrom machine.ip with
      | .error fault => .error (.execution (.memory fault))
      | .ok bytes =>
          match decode bytes with
          | .error fault => .error (.decode fault)
          | .ok decoded => .ok decoded := by
  unfold fetch Memory.sliceFrom
  cases machine.memory.check machine.ip 0 with
  | error fault => rfl
  | ok inside =>
      -- The window is the front part of what is left of memory.
      have shown : machine.memory.window machine.ip.toNat Header.longest
          = (machine.memory.bytes.extract machine.ip.toNat machine.memory.size).toList.take
              Header.longest := by
        simp only [Memory.window, Memory.size, Array.toList_extract, List.extract_eq_take_drop,
          List.take_take, Nat.add_sub_cancel_left]
        rw [List.take_eq_take_iff]
        simp only [List.length_drop, Array.length_toList]
        omega
      have length :
          (machine.memory.bytes.extract machine.ip.toNat machine.memory.size).toList.length
            = machine.memory.size - machine.ip.toNat := by
        simp only [Array.length_toList, Array.size_extract, Memory.size]
        omega
      simp only [shown, decodeWithin_take, decode, length]

/-- Runs one cycle. The instruction is logged once it is decoded. -/
def step (machine : Machine) : Report Outcome :=
  match machine.fetch with
  | .error fault => ⟨[], .error fault, machine⟩
  | .ok decoded =>
      let entry := LogRecord.trace machine.ip decoded.instruction
      match execute decoded.instruction machine with
      | .error fault after => ⟨[entry], .error (.execution fault), after⟩
      | .ok outcome after => ⟨[entry], .ok outcome, after.advance decoded.size⟩

/-- The bytes of memory in front of the instruction pointer. -/
def remaining (machine : Machine) : Nat :=
  machine.memory.size - machine.ip.toNat

/-- What is fetched lies inside memory, and takes at least a header. -/
theorem fetch_size {machine : Machine} {decoded : Decoded} (read : machine.fetch = .ok decoded) :
    2 ≤ decoded.size ∧ machine.ip.toNat + decoded.size ≤ machine.memory.size := by
  unfold fetch at read
  split at read
  next => contradiction
  next =>
    split at read
    next => contradiction
    next other decodedThere =>
      injection read with same
      subst same
      obtain ⟨header, fits⟩ := decodeWithin_size decodedThere
      refine ⟨header, ?_⟩
      simp only [Memory.window, Array.length_toList, Array.size_extract] at fits
      simp only [Memory.size]
      omega

/-- A cycle that succeeds fetches an instruction, carries it out, and only then
moves the instruction pointer on by its size. -/
theorem step_ok {machine after : Machine} {entries : List LogRecord} {outcome : Outcome}
    (stepped : machine.step = ⟨entries, .ok outcome, after⟩) :
    ∃ decoded later, machine.fetch = .ok decoded
      ∧ execute decoded.instruction machine = .ok outcome later
      ∧ after = later.advance decoded.size := by
  unfold step at stepped
  split at stepped
  next =>
    injection stepped with _ failed
    contradiction
  next decoded fetched =>
    simp only at stepped
    split at stepped
    next =>
      injection stepped with _ failed
      contradiction
    next done later executed =>
      injection stepped with _ sameAnswer sameMachine
      injection sameAnswer with sameOutcome
      subst sameOutcome
      exact ⟨decoded, later, fetched, executed, sameMachine.symm⟩

/-- A cycle that succeeds moves the instruction pointer on by the size of what
was fetched, without wrapping and within memory. -/
theorem ip_step {machine after : Machine} {entries : List LogRecord} {outcome : Outcome}
    (stepped : machine.step = ⟨entries, .ok outcome, after⟩) :
    ∃ decoded, machine.fetch = .ok decoded
      ∧ after.ip.toNat = machine.ip.toNat + decoded.size
      ∧ after.memory.size = machine.memory.size := by
  obtain ⟨decoded, later, fetched, executed, rfl⟩ := step_ok stepped
  obtain ⟨sameIp, sameSize, _⟩ := execute_ok executed
  -- What was fetched ends inside memory, so the sum stays below `2 ^ 64`.
  obtain ⟨_, fits⟩ := fetch_size fetched
  have bound : machine.memory.size < 2 ^ 64 := machine.memory.size_lt
  refine ⟨decoded, fetched, ?_, sameSize⟩
  simp only [advance, UInt64.toNat_add, UInt64.toNat_ofNat', sameIp]
  omega

/-- A cycle that succeeds leaves fewer bytes in front of the instruction
pointer. -/
theorem remaining_step_lt {machine after : Machine} {entries : List LogRecord}
    {outcome : Outcome} (stepped : machine.step = ⟨entries, .ok outcome, after⟩) :
    after.remaining < machine.remaining := by
  obtain ⟨decoded, fetched, moved, sameSize⟩ := ip_step stepped
  obtain ⟨header, fits⟩ := fetch_size fetched
  simp only [remaining]
  omega

end Machine

end RegisterVM
