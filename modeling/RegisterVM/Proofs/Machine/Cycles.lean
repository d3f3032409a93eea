import RegisterVM.Proofs.Codec.Truncation
import RegisterVM.Proofs.Listing.Following
import RegisterVM.Proofs.Machine.Faults

/-!
# The ways a cycle can go

What a fetch finds is told by the instruction pointer, the number of bytes in front of
it and their header word (`Machine.fetch_cases`). A fault of a cycle tells the stage it
arose in: an instruction that is carried out accesses at least one byte
(`length_pos_of_outOfBounds`), so that only a fetch is refused for a range of none. The
faults of a cycle are therefore told apart by the same conditions, each of which has a
fault of its own (`Machine.step_exact`).
-/

namespace RegisterVM

/-- A range that an instruction is refused is not empty. -/
theorem length_pos_of_outOfBounds {instruction : Instruction} {machine after : Machine}
    {address : UInt64} {length : Nat}
    (failed : execute instruction machine = .error (.memory (.outOfBounds address length)) after) :
    0 < length := by
  have refused := (execute_eq_error_iff.mp failed).1
  rw [(instruction.governed_effect machine).eq_error_iff,
    Demand.firstFault?_eq_some_iff] at refused
  obtain ⟨front, demand, rest, -, -, -, same⟩ := refused
  cases demand with
  | range start width =>
      injection same with same
      injection same with _ sameLength
      rw [sameLength]
      exact width.bytes_pos
  | divisor number width => contradiction

/-- The faults that nothing but a fetch can have. -/
def MachineFault.OfFetch : MachineFault → Prop
  | decode _ => True
  | execution (.memory (.outOfBounds _ length)) => length = 0
  | execution .divisionByZero => False

namespace Machine

variable {machine : Machine}

theorem length_ahead (machine : Machine) : machine.ahead.length = machine.remaining := by
  rw [ahead, List.length_drop]
  rfl

/-- Where there are bytes for a header, the instruction pointer is inside memory. -/
theorem ip_le_of_headed (headed : Header.bytes ≤ machine.remaining) :
    machine.ip.toNat ≤ machine.memory.size := by
  unfold remaining Header.bytes at headed
  omega

/-! ## Fetching -/

theorem fetch_of_lt (outside : machine.memory.size < machine.ip.toNat) :
    machine.fetch = .error (.execution (.memory (.outOfBounds machine.ip 0))) := by
  rw [fetch, Memory.check, if_neg (by omega)]

/-- The instruction pointer is behind memory, or there are too few bytes in front of it for a
header, or for what the header asks for, or there is an instruction. -/
theorem fetch_cases (machine : Machine) :
    (machine.memory.size < machine.ip.toNat
      ∧ machine.fetch = .error (.execution (.memory (.outOfBounds machine.ip 0))))
    ∨ (machine.ip.toNat ≤ machine.memory.size ∧ machine.remaining < Header.bytes
      ∧ machine.fetch = .error (.decode (.truncated Header.bytes machine.remaining)))
    ∨ (Header.bytes ≤ machine.remaining
      ∧ machine.remaining < instructionSize (headerWord machine.ahead)
      ∧ machine.fetch
        = .error (.decode (.truncated (instructionSize (headerWord machine.ahead))
          machine.remaining)))
    ∨ (Header.bytes ≤ machine.remaining
      ∧ instructionSize (headerWord machine.ahead) ≤ machine.remaining
      ∧ ∃ instruction,
        decode machine.ahead = .ok ⟨instruction, instructionSize (headerWord machine.ahead)⟩
          ∧ machine.fetch = .ok ⟨instruction, instructionSize (headerWord machine.ahead)⟩) := by
  rcases Nat.lt_or_ge machine.memory.size machine.ip.toNat with outside | inside
  · exact .inl ⟨outside, fetch_of_lt outside⟩
  · have fetched := fetch_of_le inside
    have split := decode_cases machine.ahead
    rw [length_ahead] at split
    rcases split with ⟨short, failed⟩ | ⟨headed, short, failed⟩ | ⟨headed, enough, _, read⟩
    · exact .inr (.inl ⟨inside, short, by rw [fetched, failed]⟩)
    · exact .inr (.inr (.inl ⟨headed, short, by rw [fetched, failed]⟩))
    · exact .inr (.inr (.inr ⟨headed, enough, _, read, by rw [fetched, read]⟩))

/-- Each of the three ways to fail has a condition of its own. -/
theorem fetch_outside_iff (machine : Machine) :
    machine.fetch = .error (.execution (.memory (.outOfBounds machine.ip 0)))
      ↔ machine.memory.size < machine.ip.toNat := by
  refine ⟨fun refused => ?_, fetch_of_lt⟩
  rcases machine.fetch_cases with
    ⟨outside, -⟩ | ⟨-, -, fetched⟩ | ⟨-, -, fetched⟩ | ⟨-, -, _, -, fetched⟩
  · exact outside
  all_goals
    rw [fetched] at refused
    simp at refused

theorem fetch_headless_iff (machine : Machine) :
    machine.fetch = .error (.decode (.truncated Header.bytes machine.remaining))
      ↔ machine.ip.toNat ≤ machine.memory.size ∧ machine.remaining < Header.bytes := by
  rcases machine.fetch_cases with ⟨outside, fetched⟩ | ⟨inside, short, fetched⟩
    | ⟨headed, short, fetched⟩ | ⟨headed, -, _, -, fetched⟩
  · rw [fetched]
    simp only [Except.error.injEq, reduceCtorEq, false_iff]
    omega
  · exact iff_of_true fetched ⟨inside, short⟩
  · -- What is missed is then more than the header, which is there.
    rw [fetched]
    simp only [Except.error.injEq, MachineFault.decode.injEq, DecodeFault.truncated.injEq]
    omega
  · rw [fetched]
    simp only [reduceCtorEq, false_iff]
    omega

theorem fetch_cut_iff {machine : Machine} (headed : Header.bytes ≤ machine.remaining) :
    machine.fetch
        = .error (.decode (.truncated (instructionSize (headerWord machine.ahead))
          machine.remaining))
      ↔ machine.remaining < instructionSize (headerWord machine.ahead) := by
  rcases machine.fetch_cases with ⟨outside, fetched⟩ | ⟨inside, short, fetched⟩
    | ⟨-, short, fetched⟩ | ⟨-, enough, _, -, fetched⟩
  · exact absurd outside (Nat.not_lt_of_le (ip_le_of_headed headed))
  · omega
  · exact iff_of_true fetched short
  · rw [fetched]
    simp only [reduceCtorEq, false_iff]
    omega

/-! ## The stage of a fault -/

/-- Of these faults, a cycle has those of its fetch. -/
theorem answer_eq_error_iff {fault : MachineFault} (ofFetch : fault.OfFetch) :
    machine.step.answer = .error fault ↔ machine.fetch = .error fault := by
  cases fetched : machine.fetch with
  | error cause =>
      rw [step_of_fetch_error fetched]
      simp
  | ok decoded =>
      simp only [reduceCtorEq, iff_false]
      intro answered
      cases executed : execute decoded.instruction machine with
      | ok outcome later =>
          rw [(completes_of_execute fetched executed).2] at answered
          contradiction
      | error cause later =>
          rw [step_of_execute_error fetched executed] at answered
          injection answered with same
          subst same
          cases cause with
          | divisionByZero => exact ofFetch
          | memory refused =>
              obtain ⟨address, length⟩ := refused
              exact Nat.ne_of_gt (length_pos_of_outOfBounds executed) ofFetch

/-- **The ways of a cycle.** With so many bytes `available` in front of the instruction pointer, and
`needed` as many as the header word there asks for, a cycle is refused an empty range at the
instruction pointer exactly if that is behind the end of memory; it misses a header exactly if
there are fewer than two bytes, and the rest of the instruction exactly if there are at least two
but fewer than needed. In all other cases it carries out the instruction that these bytes are read
as: it fails with the fault of the instruction, and the machine is as before, or it has its outcome,
and the machine is the one that the instruction leaves, but for the instruction pointer, which is
moved by the needed bytes and does not wrap. No cycle finds fault with an operand, and no
instruction is refused an empty range. -/
theorem step_exact (machine : Machine) :
    let available := machine.remaining
    let needed := instructionSize (headerWord machine.ahead)
    (machine.step.answer = .error (.execution (.memory (.outOfBounds machine.ip 0)))
        ↔ machine.memory.size < machine.ip.toNat)
      ∧ (machine.step.answer = .error (.decode (.truncated Header.bytes available))
        ↔ machine.ip.toNat ≤ machine.memory.size ∧ available < Header.bytes)
      ∧ (Header.bytes ≤ available →
        (machine.step.answer = .error (.decode (.truncated needed available))
            ↔ available < needed)
          ∧ (needed ≤ available →
            ∃ instruction, decode machine.ahead = .ok ⟨instruction, needed⟩
              ∧ (∀ fault after, execute instruction machine = .error fault after →
                machine.step
                  = ⟨[.trace machine.ip instruction], .error (.execution fault), machine⟩)
              ∧ (∀ outcome after, execute instruction machine = .ok outcome after →
                machine.step
                    = ⟨[.trace machine.ip instruction], .ok outcome, after.advance needed⟩
                  ∧ (after.advance needed).ip.toNat = machine.ip.toNat + needed)))
      ∧ (∀ code, machine.step.answer ≠ .error (.decode (.invalidOperand code)))
      ∧ (∀ instruction address after,
        execute instruction machine ≠ .error (.memory (.outOfBounds address 0)) after) := by
  intro available needed
  refine ⟨?_, ?_, ?_, ?_, ?_⟩
  · exact Iff.trans (answer_eq_error_iff rfl) machine.fetch_outside_iff
  · exact Iff.trans (answer_eq_error_iff trivial) machine.fetch_headless_iff
  · intro headed
    refine ⟨Iff.trans (answer_eq_error_iff trivial) (fetch_cut_iff headed), fun enough => ?_⟩
    rcases machine.fetch_cases with ⟨outside, -⟩ | ⟨-, short, -⟩ | ⟨-, short, -⟩
      | ⟨-, -, instruction, read, fetched⟩
    · exact absurd outside (Nat.not_lt_of_le (ip_le_of_headed headed))
    · omega
    · omega
    · refine ⟨instruction, read, ?_, ?_⟩
      · intro fault after failed
        obtain rfl := execute_error failed
        exact step_of_execute_error fetched failed
      · intro outcome after done
        obtain ⟨-, -, rfl⟩ := execute_ok done
        have completed := completes_of_execute fetched done
        exact ⟨completed.2, completed.ip.1⟩
  · intro code answered
    have ofFetch : MachineFault.OfFetch (.decode (.invalidOperand code)) := trivial
    have refused := (answer_eq_error_iff ofFetch).mp answered
    rcases machine.fetch_cases with ⟨-, fetched⟩ | ⟨-, -, fetched⟩ | ⟨-, -, fetched⟩
      | ⟨-, -, _, -, fetched⟩
    all_goals
      rw [fetched] at refused
      simp at refused
  · intro instruction address after failed
    exact absurd (length_pos_of_outOfBounds failed) (Nat.lt_irrefl 0)

/-- A `NOT` that overwrites itself and what comes next, where an immediate is then announced behind
the end of memory; and fetches from the last byte and from behind it. -/
theorem step_exact_overwriting_itself :
    let image : Memory := ⟨#[0x0a, 0x29, 0x04, 0x00], by decide⟩
    let machine := Machine.ofMemory image
    let filled : Memory := ⟨#[0xff, 0xff, 0xff, 0xff], by decide⟩
    let after := { machine with memory := filled }
    let invert : Instruction := ⟨.unary .not, ⟨.r1, true⟩, ⟨.r2, false⟩, .generic false none⟩
    Header.bytes ≤ machine.remaining
      ∧ instructionSize (headerWord machine.ahead) ≤ machine.remaining
      ∧ machine.step = ⟨[.trace 0 invert], .ok .continue, { after with ip := 2 }⟩
      ∧ Header.bytes ≤ { after with ip := 2 }.remaining
      ∧ { after with ip := 2 }.step.answer = .error (.decode (.truncated 4 2))
      ∧ { after with ip := 3 }.step.answer = .error (.decode (.truncated 2 1))
      ∧ { after with ip := 5 }.step.answer
        = .error (.execution (.memory (.outOfBounds 5 0))) := by
  intro image machine filled after invert
  have inverted : execute invert machine = .ok .continue after := by
    subst invert after filled machine image
    rfl
  have read : decode machine.ahead = .ok ⟨invert, 2⟩ := by
    subst invert after filled machine image
    rfl
  have headed : Header.bytes ≤ machine.remaining := by decide +kernel
  have enough : instructionSize (headerWord machine.ahead) ≤ machine.remaining := by
    decide +kernel
  have headedToo : Header.bytes ≤ { after with ip := 2 }.remaining := by decide +kernel
  obtain ⟨-, -, complete, -⟩ := machine.step_exact
  obtain ⟨instruction, found, -, succeeds⟩ := (complete headed).2 enough
  obtain ⟨rfl, size⟩ := Decoded.mk.inj (Except.ok.inj (read.symm.trans found))
  have stepped := (succeeds _ _ inverted).1
  rw [← size] at stepped
  have asked : instructionSize (headerWord { after with ip := 2 }.ahead) = 4 := by decide +kernel
  obtain ⟨-, -, cut, -⟩ := step_exact { after with ip := 2 }
  have missing := (cut headedToo).1.mpr (by rw [asked]; decide +kernel)
  rw [asked] at missing
  obtain ⟨-, headless, -⟩ := step_exact { after with ip := 3 }
  obtain ⟨outside, -⟩ := step_exact { after with ip := 5 }
  exact ⟨headed, enough, stepped, headedToo, missing, headless.mpr (by decide +kernel),
    outside.mpr (by decide +kernel)⟩

end Machine

end RegisterVM
