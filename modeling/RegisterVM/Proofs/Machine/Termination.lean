import RegisterVM.Proofs.Codec.RoundTrip
import RegisterVM.Proofs.Machine.Atomicity
import RegisterVM.Proofs.Machine.Trace

/-!
# Runs end

A cycle that succeeds moves the instruction pointer on by the size of the
instruction that stood there, which its header word tells before anything is
carried out. No run is therefore longer than half of the bytes in front of it,
and any limit beyond that is as good as none (`runFrom_some_eq_none`).
-/

namespace RegisterVM.Machine

/-- What is fetched was decoded from the bytes in front of the instruction
pointer. -/
theorem decodeWithin_of_fetch {machine : Machine} {decoded : Decoded}
    (fetched : machine.fetch = .ok decoded) :
    decodeWithin (machine.memory.size - machine.ip.toNat)
      (machine.memory.window machine.ip.toNat Header.longest) = .ok decoded := by
  unfold fetch at fetched
  split at fetched
  next => contradiction
  next =>
    split at fetched
    next => contradiction
    next read =>
      injection fetched with same
      subst same
      exact read

/-- The header word in front of the instruction pointer tells the size of what is
fetched, which is that of its encoding. -/
theorem header_of_fetch {machine : Machine} {decoded : Decoded}
    (fetched : machine.fetch = .ok decoded) :
    ∃ header, machine.memory.read16 machine.ip = .ok header
      ∧ instructionSize header = decoded.size
      ∧ decoded.instruction.encode.length = decoded.size := by
  obtain ⟨formed, size, told⟩ := decodeWithin_ok (decodeWithin_of_fetch fetched)
  obtain ⟨atLeast, fits⟩ := fetch_size fetched
  have inside : machine.memory.check machine.ip Width.word.bytes = .ok () :=
    if_pos (Nat.le_trans (Nat.add_le_add_left atLeast _) fits)
  -- The header word is the front of the window that the fetch looks at.
  have front : (machine.memory.window machine.ip.toNat Header.longest).take Header.bytes
      = machine.memory.window machine.ip.toNat Width.word.bytes := by
    simp only [Memory.window, Array.toList_extract, List.extract_eq_take_drop, List.take_take,
      Nat.add_sub_cancel_left]
    rfl
  refine ⟨headerWord (machine.memory.window machine.ip.toNat Header.longest), ?_, told.symm, ?_⟩
  · rw [Memory.read16, Memory.read, inside, headerWord, front]
    show Except.ok _ = Except.ok _
    rw [UInt64.toUInt16_ofNat']
  · rw [formed.length_encode, size]

/-- A limit that leaves more steps than half of the bytes in front of the
instruction pointer is never reached. -/
theorem runFrom_some_eq_none (machine : Machine) (limit count : Nat) (log : List LogRecord)
    (enough : count + machine.remaining / 2 < limit) :
    machine.runFrom (some limit) count log = machine.runFrom none count log := by
  induction measure : machine.remaining using Nat.strongRecOn
    generalizing machine count log with
  | ind size ih =>
      subst measure
      have going : (some limit).all (count < ·) = true := decide_eq_true (by omega)
      rw [runFrom_eq, runFrom_eq none, if_pos going, if_pos Option.all_none]
      match stepped : machine.step with
      | ⟨entries, .error fault, after⟩ => rfl
      | ⟨entries, .ok .halt, after⟩ => rfl
      | ⟨entries, .ok .continue, after⟩ =>
          obtain ⟨decoded, completed, _⟩ := completes_of_step stepped
          obtain ⟨moved, sameSize, atLeast, fits⟩ := completed.ip
          have shorter : after.remaining + 2 ≤ machine.remaining := by
            simp only [remaining]
            omega
          exact ih after.remaining (by omega) after (count + 1) _ (by omega) rfl

/-- **Termination.** A cycle that succeeds moves the instruction pointer by the
encoded size of the instruction found there, by two bytes at least, to a place
inside memory. A run without a limit ends with the first `RET`, after no more
instructions than half of the bytes in front of it, or with a fault; and a larger
limit changes nothing. -/
theorem run_terminates (machine : Machine) :
    (∀ entries outcome after, machine.step = ⟨entries, .ok outcome, after⟩ →
      ∃ header decoded, machine.memory.read16 machine.ip = .ok header
        ∧ machine.fetch = .ok decoded
        ∧ instructionSize header = decoded.instruction.encode.length
        ∧ after.ip.toNat = machine.ip.toNat + decoded.instruction.encode.length
        ∧ machine.ip.toNat + 2 ≤ after.ip.toNat
        ∧ after.ip.toNat ≤ machine.memory.size
        ∧ after.memory.size = machine.memory.size)
    ∧ (∃ program middle, machine.Executes program middle
        ∧ (∀ decoded ∈ program, decoded.instruction.opcode ≠ .ret)
        ∧ ((∃ last after, middle.Completes last after
              ∧ last.instruction.opcode = .ret
              ∧ (machine.run none).answer = .ok (program.length + 1)
              ∧ (machine.run none).machine = after
              ∧ 2 * (program.length + 1) ≤ machine.memory.size - machine.ip.toNat)
          ∨ (∃ entries fault, middle.step = ⟨entries, .error fault, middle⟩
              ∧ (machine.run none).answer = .error fault
              ∧ (machine.run none).machine = middle)))
    ∧ (∀ limit, (machine.memory.size - machine.ip.toNat) / 2 < limit →
        machine.run (some limit) = machine.run none) := by
  refine ⟨?_, ?_, ?_⟩
  · intro entries outcome after stepped
    obtain ⟨decoded, completed, _⟩ := completes_of_step stepped
    obtain ⟨header, read, told, size⟩ := header_of_fetch completed.1
    obtain ⟨moved, sameSize, atLeast, fits⟩ := completed.ip
    rw [← size] at told moved
    refine ⟨header, decoded, read, completed.1, told, moved, ?_, ?_, sameSize⟩
    · omega
    · omega
  · obtain ⟨program, middle, executed, straight, ended⟩ := exists_executes_end machine
    obtain ⟨log, along⟩ := runFrom_of_executes executed straight none 0 (by simp) []
    rw [Nat.zero_add] at along
    have bound := executed.remaining_le
    refine ⟨program, middle, executed, straight, ?_⟩
    rw [run, along]
    rcases ended with ⟨last, after, completed, returns⟩ | ⟨entries, fault, after, failed⟩
    · obtain ⟨answer, final⟩ :=
        runFrom_of_ret completed returns none program.length (by simp) log
      obtain ⟨moved, sameSize, atLeast, fits⟩ := completed.ip
      refine .inl ⟨last, after, completed, returns, answer, final, ?_⟩
      simp only [remaining] at bound
      omega
    · obtain rfl := step_error failed
      obtain ⟨answer, final⟩ := runFrom_of_error failed none program.length (by simp) log
      exact .inr ⟨entries, fault, failed, answer, final⟩
  · intro limit enough
    exact runFrom_some_eq_none machine limit 0 [] (by rw [Nat.zero_add]; exact enough)

/-- A move that writes another opcode over its own, and a `RET` behind it. -/
theorem run_terminates_overwriting_itself :
    let machine := (ofMemory ⟨#[0x1d, 0x29, 0x04, 0x00], by decide⟩).setRegister .r2 0x8c
    (∃ entries after, machine.step = ⟨entries, .ok .continue, after⟩
      ∧ after.memory.read16 0 = .ok 0x298c ∧ instructionSize 0x298c = 4
      ∧ ∃ header decoded, machine.memory.read16 machine.ip = .ok header
        ∧ machine.fetch = .ok decoded
        ∧ instructionSize header = decoded.instruction.encode.length
        ∧ after.ip.toNat = machine.ip.toNat + decoded.instruction.encode.length
        ∧ machine.ip.toNat + 2 ≤ after.ip.toNat
        ∧ after.ip.toNat ≤ machine.memory.size
        ∧ after.memory.size = machine.memory.size)
    ∧ (machine.memory.size - machine.ip.toNat) / 2 < 3
    ∧ machine.run (some 3) = machine.run none := by
  intro machine
  let move : Instruction := ⟨.move .bw, ⟨.r1, true⟩, ⟨.r2, false⟩, .move .byte .word none none⟩
  let after : Machine := { machine with memory := ⟨#[0x8c, 0x29, 0x04, 0x00], by decide⟩ }
  have fetched : machine.fetch = .ok ⟨move, 2⟩ := by
    subst after move machine
    rfl
  have executed : execute move machine = .ok .continue after := by
    subst after move machine
    rfl
  have stepped : machine.step = ⟨[.trace 0 move], .ok .continue, { after with ip := 2 }⟩ := by
    simp only [step, fetched, executed]
    rfl
  have read : after.memory.read16 0 = .ok 0x298c := by
    subst after move machine
    rfl
  have enough : (machine.memory.size - machine.ip.toNat) / 2 < 3 := by decide
  obtain ⟨moves, _, unlimited⟩ := run_terminates machine
  exact ⟨⟨_, _, stepped, read, rfl, moves _ _ _ stepped⟩, enough, unlimited 3 enough⟩

end RegisterVM.Machine
