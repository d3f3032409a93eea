import RegisterVM.Instruction.Listing
import RegisterVM.Proofs.Codec.Canonical
import RegisterVM.Proofs.Codec.Truncation
import RegisterVM.Proofs.Machine.Assembled

/-!
# Listings stay in step with the code

Instructions are told apart by their headers alone, so that a listing which once
slips goes on astray. It does not slip: the listing of an assembled program shows
the program (`sweep_assemble`), and the listing of any bytes comes to an end with an
instruction that is cut off, and spells the bytes in front of that again, but for the
codes of reserved opcodes (`assemble_sweep`).
-/

namespace RegisterVM

namespace Listing

/-- The instructions that the listing shows. -/
def instructions (listing : Listing) : List Instruction :=
  listing.entries.map (·.2.instruction)

/-- The offsets of the instructions that the listing shows. -/
def offsets (listing : Listing) : List Nat :=
  listing.entries.map (·.1)

/-- The entries of a program whose encodings stand one behind the other from `offset`
on. -/
def layout (offset : Nat) : List Instruction → List (Nat × Decoded)
  | [] => []
  | instruction :: program =>
      (offset, ⟨instruction, instruction.encode.length⟩)
        :: layout (offset + instruction.encode.length) program

/-! ## One instruction further -/

theorem sweep_of_error {bytes : List UInt8} {fault : DecodeFault}
    (refused : decode bytes = .error fault) (offset : Nat) :
    sweep offset bytes = ⟨[], offset, fault⟩ := by
  rw [sweep]
  split
  next other failed =>
    rw [refused] at failed
    injection failed with same
    rw [same]
  next decoded read =>
    rw [refused] at read
    contradiction

theorem sweep_of_ok {bytes : List UInt8} {decoded : Decoded}
    (read : decode bytes = .ok decoded) (offset : Nat) :
    sweep offset bytes =
      let later := sweep (offset + decoded.size) (bytes.drop decoded.size)
      { later with entries := (offset, decoded) :: later.entries } := by
  rw [sweep]
  split
  next fault failed =>
    rw [read] at failed
    contradiction
  next other again =>
    rw [read] at again
    injection again with same
    rw [same]

/-! ## Listings of programs -/

theorem sweep_assemble {program : List Instruction}
    (formed : ∀ instruction ∈ program, instruction.WellFormed) (offset : Nat) :
    sweep offset (assemble program)
      = ⟨layout offset program, offset + (assemble program).length, .truncated 2 0⟩ := by
  induction program generalizing offset with
  | nil => exact sweep_of_error rfl offset
  | cons instruction program ih =>
      have read := decode_encode_append (formed instruction List.mem_cons_self) (assemble program)
      have rest := ih (fun one there => formed one (List.mem_cons_of_mem _ there))
        (offset + instruction.encode.length)
      rw [assemble_cons, sweep_of_ok read, List.drop_left, rest, List.length_append, Nat.add_assoc]
      rfl

end Listing

/-! ## Clearing reserved codes -/

/-- The bytes, which stand from `start` on, with the code cleared of every reserved
opcode among the headers that stand at these offsets. -/
def clearHeaders (headers : List Nat) (start : Nat) (bytes : List UInt8) : List UInt8 :=
  bytes.mapIdx fun place byte =>
    if start + place ∈ headers ∧ Opcode.ofCode byte = .nop then byte &&& ~~~Opcode.codeMask
    else byte

theorem clearHeaders_congr {headers headers' : List Nat} {start : Nat} {bytes : List UInt8}
    (same : ∀ place < bytes.length, start + place ∈ headers ↔ start + place ∈ headers') :
    clearHeaders headers start bytes = clearHeaders headers' start bytes := by
  apply List.ext_getElem
  · rw [clearHeaders, clearHeaders, List.length_mapIdx, List.length_mapIdx]
  · intro place within _
    rw [clearHeaders, List.length_mapIdx] at within
    simp only [clearHeaders, List.getElem_mapIdx, same place within]

theorem clearHeaders_append (headers : List Nat) (start : Nat) (front later : List UInt8) :
    clearHeaders headers start (front ++ later)
      = clearHeaders headers start front ++ clearHeaders headers (start + front.length) later := by
  rw [clearHeaders, clearHeaders, clearHeaders, List.mapIdx_append]
  have moved (place : Nat) : start + (place + front.length) = start + front.length + place := by
    omega
  simp only [moved]

/-- The bytes of one instruction have their one header in front. -/
theorem clearHeaders_singleton (start : Nat) (bytes : List UInt8) :
    clearHeaders [start] start bytes = clearReserved bytes := by
  cases bytes with
  | nil => rfl
  | cons low rest =>
      have behind : rest.mapIdx (fun place byte =>
          if start + (place + 1) ∈ [start] ∧ Opcode.ofCode byte = .nop then
            byte &&& ~~~Opcode.codeMask
          else byte) = rest := by
        apply List.ext_getElem
        · rw [List.length_mapIdx]
        · intro place _ _
          rw [List.getElem_mapIdx, if_neg]
          rintro ⟨header, -⟩
          have := List.mem_singleton.mp header
          omega
      rw [clearHeaders, List.mapIdx_cons, behind, clearReserved]
      simp

namespace Listing

/-! ## Listings of any bytes -/

theorem le_of_mem_offsets {offset place : Nat} {bytes : List UInt8}
    (listed : place ∈ (sweep offset bytes).offsets) : offset ≤ place := by
  fun_induction sweep offset bytes with
  | case1 offset bytes fault refused => contradiction
  | case2 offset bytes decoded read later ih =>
      rcases List.mem_cons.mp listed with rfl | behind
      · exact Nat.le_refl _
      · exact Nat.le_trans (Nat.le_add_right _ _) (ih behind)

/-- A listing ends inside the bytes, where fewer are left than are asked for. Each
instruction took two bytes at least. -/
theorem sweep_ends (offset : Nat) (bytes : List UInt8) :
    ∃ listed ≤ bytes.length, (sweep offset bytes).offset = offset + listed
      ∧ 2 * (sweep offset bytes).entries.length ≤ listed
      ∧ ∃ needed, (sweep offset bytes).fault = .truncated needed (bytes.length - listed)
        ∧ bytes.length - listed < needed := by
  fun_induction sweep offset bytes with
  | case1 offset bytes fault refused =>
      refine ⟨0, Nat.zero_le _, rfl, Nat.le_refl _, ?_⟩
      rcases decode_cases bytes with ⟨short, failed⟩ | ⟨-, short, failed⟩ | ⟨-, -, _, read⟩
      · rw [refused] at failed
        injection failed with same
        exact ⟨_, same, short⟩
      · rw [refused] at failed
        injection failed with same
        exact ⟨_, same, short⟩
      · rw [refused] at read
        contradiction
  | case2 offset bytes decoded read later ih =>
      obtain ⟨listed, inside, ended, count, needed, fault, short⟩ := ih
      obtain ⟨atLeast, fits⟩ := decode_size read
      rw [List.length_drop] at inside fault short
      refine ⟨decoded.size + listed, by omega, ?_, ?_, needed, ?_, by omega⟩
      · rw [← Nat.add_assoc]
        exact ended
      · show 2 * ((sweep (offset + decoded.size) (bytes.drop decoded.size)).entries.length + 1)
          ≤ decoded.size + listed
        omega
      · rw [← Nat.sub_sub]
        exact fault

/-- The instructions listed spell the bytes that were listed. -/
theorem assemble_sweep (offset : Nat) (bytes : List UInt8) :
    assemble (sweep offset bytes).instructions
      = clearHeaders (sweep offset bytes).offsets offset
          (bytes.take ((sweep offset bytes).offset - offset)) := by
  fun_induction sweep offset bytes with
  | case1 offset bytes fault refused =>
      rw [Nat.sub_self]
      rfl
  | case2 offset bytes decoded read later ih =>
      obtain ⟨listed, -, ended, -⟩ :=
        sweep_ends (offset + decoded.size) (bytes.drop decoded.size)
      have cut : (bytes.take decoded.size).length = decoded.size :=
        List.length_take_of_le (decode_size read).2
      -- The first instruction has the header at `offset` and no other one.
      have first : clearHeaders (offset :: later.offsets) offset (bytes.take decoded.size)
          = decoded.instruction.encode := by
        rw [encode_of_decode read, ← clearHeaders_singleton offset]
        apply clearHeaders_congr
        intro place within
        rw [List.mem_cons, List.mem_singleton]
        refine or_iff_left fun behind => ?_
        have := le_of_mem_offsets behind
        omega
      -- The others have all headers but this one.
      have others : clearHeaders (offset :: later.offsets) (offset + decoded.size)
            ((bytes.drop decoded.size).take listed)
          = clearHeaders later.offsets (offset + decoded.size)
            ((bytes.drop decoded.size).take listed) := by
        apply clearHeaders_congr
        intro place _
        rw [List.mem_cons]
        refine or_iff_right fun front => ?_
        have := (decode_size read).1
        omega
      have length : later.offset - offset = decoded.size + listed := by
        show (sweep (offset + decoded.size) (bytes.drop decoded.size)).offset - offset = _
        omega
      rw [ended, Nat.add_sub_cancel_left] at ih
      show decoded.instruction.encode ++ assemble later.instructions
        = clearHeaders (offset :: later.offsets) offset (bytes.take (later.offset - offset))
      rw [length, List.take_add, clearHeaders_append, cut, first, others]
      exact congrArg (decoded.instruction.encode ++ ·) ih

end Listing

/-- **Listings.** The listing of an assembled program shows its records, each at the
sum of the lengths in front of it, and ends behind the last one with nothing left. The
listing of any bytes shows at most half as many instructions as there are bytes, and
ends with a fault at an offset behind which fewer bytes are left than it asks for; the
instructions shown, encoded again, are the bytes in front of that offset with the
codes of the reserved opcodes among their headers cleared. -/
theorem listing_in_step :
    (∀ program : List Instruction, (∀ instruction ∈ program, instruction.WellFormed) →
      Listing.ofBytes (assemble program)
        = ⟨Listing.layout 0 program, (assemble program).length, .truncated 2 0⟩)
    ∧ (∀ bytes : List UInt8,
      let listing := Listing.ofBytes bytes
      listing.entries.length ≤ bytes.length / 2
        ∧ listing.offset ≤ bytes.length
        ∧ (∃ needed, listing.fault = .truncated needed (bytes.length - listing.offset)
          ∧ bytes.length - listing.offset < needed)
        ∧ assemble listing.instructions
          = clearHeaders listing.offsets 0 (bytes.take listing.offset)) := by
  refine ⟨?_, ?_⟩
  · intro program formed
    rw [Listing.ofBytes, Listing.sweep_assemble formed, Nat.zero_add]
  · intro bytes listing
    obtain ⟨listed, inside, ended, count, needed, fault, short⟩ := Listing.sweep_ends 0 bytes
    obtain rfl : listing.offset = listed := ended.trans (Nat.zero_add listed)
    have counted : listing.entries.length ≤ bytes.length / 2 := by
      have : 2 * listing.entries.length ≤ listing.offset := count
      omega
    exact ⟨counted, inside, ⟨needed, fault, short⟩, Listing.assemble_sweep 0 bytes⟩

/-- A `NOP` with an immediate and a move, in their own codes; and the same `NOP` under a
reserved code, in front of a move that is cut off. -/
theorem listing_in_step_reserved :
    let nop : Instruction := ⟨.nop, ⟨.r1, false⟩, ⟨.r2, false⟩, .generic true (some 0x1234)⟩
    let move : Instruction :=
      ⟨.move .bw, ⟨.r1, true⟩, ⟨.r2, false⟩, .move .byte .word none (some 8)⟩
    let bytes : List UInt8 := [0xd9, 0x21, 0x34, 0x12, 0x5d, 0x29, 0x08]
    (∀ instruction ∈ [nop, move], instruction.WellFormed)
      ∧ Listing.ofBytes (assemble [nop, move])
        = ⟨[(0, ⟨nop, 4⟩), (4, ⟨move, 4⟩)], 8, .truncated 2 0⟩
      ∧ Listing.ofBytes bytes = ⟨[(0, ⟨nop, 4⟩)], 4, .truncated 4 3⟩
      ∧ assemble [nop] = clearHeaders [0] 0 (bytes.take 4) := by
  intro nop move bytes
  have formed : ∀ instruction ∈ [nop, move], instruction.WellFormed := by decide
  have read : decode bytes = .ok ⟨nop, 4⟩ := rfl
  have refused : decode (bytes.drop 4) = .error (.truncated 4 3) := rfl
  have listed : Listing.ofBytes bytes = ⟨[(0, ⟨nop, 4⟩)], 4, .truncated 4 3⟩ := by
    rw [Listing.ofBytes, Listing.sweep_of_ok read, Listing.sweep_of_error refused]
    rfl
  obtain ⟨programs, others⟩ := listing_in_step
  obtain ⟨-, -, -, spelled⟩ := others bytes
  rw [listed] at spelled
  exact ⟨formed, programs [nop, move] formed, listed, spelled⟩

end RegisterVM
