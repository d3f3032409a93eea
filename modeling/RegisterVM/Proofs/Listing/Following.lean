import RegisterVM.Proofs.Listing.Sweep
import RegisterVM.Proofs.Machine.Logs

/-!
# Runs follow the listing of their code

The listing of the bytes in front of the instruction pointer is made once, from
memory as it is before a run, and the run fetches its instructions from memory as it
is by then. As long as no instruction writes from the instruction pointer on, both
read the same: behind the cycles of a run, what is left to be listed is what is in
front of the instruction pointer (`sweep_along`). A run then shows the front of the
listing, and ends at an instruction of it or with the fault that ends it
(`Machine.Follows`).
-/

namespace RegisterVM

/-- The memories hold the same bytes from `start` on. -/
def Memory.SameFrom (start : Nat) (memory other : Memory) : Prop :=
  ∀ place, start ≤ place → other.bytes[place]? = memory.bytes[place]?

theorem Memory.SameFrom.drop_eq {start place : Nat} {memory other : Memory}
    (same : memory.SameFrom start other) (behind : start ≤ place) :
    other.bytes.toList.drop place = memory.bytes.toList.drop place := by
  apply List.ext_getElem?
  intro index
  rw [List.getElem?_drop, List.getElem?_drop, Array.getElem?_toList, Array.getElem?_toList]
  exact same _ (Nat.le_trans behind (Nat.le_add_right _ _))

/-- The entries of instructions that stand one behind the other from `offset` on. -/
def Listing.placed (offset : Nat) : List Decoded → List (Nat × Decoded)
  | [] => []
  | decoded :: program => (offset, decoded) :: placed (offset + decoded.size) program

namespace Machine

/-- The bytes of memory in front of the instruction pointer. -/
def ahead (machine : Machine) : List UInt8 :=
  machine.memory.bytes.toList.drop machine.ip.toNat

/-- A run with the limit carries out the instruction `decoded` on `before`, which
leaves `after`. -/
def CarriesOut (machine : Machine) (limit : Option Nat) (before : Machine) (decoded : Decoded)
    (after : Machine) : Prop :=
  ∃ program, machine.Executes program before
    ∧ (∀ one ∈ program, one.instruction.opcode ≠ .ret)
    ∧ (∀ bound ∈ limit, program.length < bound)
    ∧ before.Completes decoded after

/-- No instruction that a run with the limit carries out changes a byte from `start`
on. -/
def KeepsFrom (machine : Machine) (limit : Option Nat) (start : Nat) : Prop :=
  ∀ before decoded after, machine.CarriesOut limit before decoded after →
    before.memory.SameFrom start after.memory

/-- The records that a run leaves of the listed instructions, with offsets counted
from `address`. -/
def listedRecords (address : UInt64) (entries : List (Nat × Decoded)) : List LogRecord :=
  entries.map fun (offset, decoded) =>
    .trace (address + UInt64.ofNat offset) decoded.instruction

/-- The reports of a run along a listing: it carries out the instructions in front of
the listing, none of them a `RET`, and then its limit is used up, a `RET` is listed, an
instruction is listed that cannot be carried out, or the listing ends. -/
inductive Follows (machine : Machine) (limit : Option Nat) (listing : Listing) : Report Nat → Prop
  | limited {front rest : List (Nat × Decoded)} {after : Machine}
      (listed : listing.entries = front ++ rest)
      (executed : machine.Executes (front.map (·.2)) after)
      (straight : ∀ entry ∈ front, entry.2.instruction.opcode ≠ .ret)
      (spent : limit = some front.length) :
      Follows machine limit listing
        { log := listedRecords machine.ip front ++ [.stopped after.ip front.length]
          answer := .ok front.length
          machine := after }
  | returned {front rest : List (Nat × Decoded)} {before : Machine} {offset : Nat} {last : Decoded}
      {after : Machine}
      (listed : listing.entries = front ++ (offset, last) :: rest)
      (executed : machine.Executes (front.map (·.2)) before)
      (straight : ∀ entry ∈ front, entry.2.instruction.opcode ≠ .ret)
      (left : ∀ bound ∈ limit, front.length < bound)
      (completed : before.Completes last after) (returns : last.instruction.opcode = .ret) :
      Follows machine limit listing
        { log := listedRecords machine.ip (front ++ [(offset, last)])
            ++ [.halted (machine.ip + UInt64.ofNat offset) (front.length + 1)]
          answer := .ok (front.length + 1)
          machine := after }
  | failed {front rest : List (Nat × Decoded)} {before : Machine} {offset : Nat}
      {failing : Decoded} {cause : ExecutionFault}
      (listed : listing.entries = front ++ (offset, failing) :: rest)
      (executed : machine.Executes (front.map (·.2)) before)
      (straight : ∀ entry ∈ front, entry.2.instruction.opcode ≠ .ret)
      (left : ∀ bound ∈ limit, front.length < bound)
      (unable : execute failing.instruction before = .error cause before) :
      Follows machine limit listing
        { log := listedRecords machine.ip (front ++ [(offset, failing)])
            ++ [.faulted (machine.ip + UInt64.ofNat offset) (.execution cause)]
          answer := .error (.execution cause)
          machine := before }
  | exhausted {before : Machine}
      (executed : machine.Executes (listing.entries.map (·.2)) before)
      (straight : ∀ entry ∈ listing.entries, entry.2.instruction.opcode ≠ .ret)
      (left : ∀ bound ∈ limit, listing.entries.length < bound) :
      Follows machine limit listing
        { log := listedRecords machine.ip listing.entries
            ++ [.faulted (machine.ip + UInt64.ofNat listing.offset) (.decode listing.fault)]
          answer := .error (.decode listing.fault)
          machine := before }

/-! ## Listing and fetching -/

theorem fetch_of_le {machine : Machine} (inside : machine.ip.toNat ≤ machine.memory.size) :
    machine.fetch =
      match decode machine.ahead with
      | .error fault => .error (.decode fault)
      | .ok decoded => .ok decoded := by
  rw [fetch_eq, Memory.sliceFrom_of_le inside]
  rfl

theorem decode_ahead {machine : Machine} {decoded : Decoded}
    (fetched : machine.fetch = .ok decoded) : decode machine.ahead = .ok decoded := by
  obtain ⟨-, fits⟩ := fetch_size fetched
  rw [fetch_of_le (by omega)] at fetched
  split at fetched
  next => contradiction
  next other read =>
    injection fetched with same
    rw [read, same]

/-- A cycle that keeps the bytes from `start` on leaves in front of the instruction
pointer what was there behind its instruction. -/
theorem Completes.ahead {machine after : Machine} {decoded : Decoded} {start : Nat}
    (completed : machine.Completes decoded after)
    (kept : machine.memory.SameFrom start after.memory) (reached : start ≤ machine.ip.toNat) :
    after.ahead = machine.ahead.drop decoded.size := by
  obtain ⟨moved, -, -, -⟩ := completed.ip
  rw [Machine.ahead, Machine.ahead, List.drop_drop, moved]
  exact kept.drop_eq (Nat.le_trans reached (Nat.le_add_right _ _))

open Listing in
/-- What is left of a listing behind the cycles of a run is the listing of what is then
in front of the instruction pointer. -/
theorem sweep_along {machine middle : Machine} {program : List Decoded} {start : Nat}
    (executed : machine.Executes program middle)
    (kept : ∀ front decoded later before after, program = front ++ decoded :: later →
      machine.Executes front before → before.Completes decoded after →
        before.memory.SameFrom start after.memory)
    (reached : start ≤ machine.ip.toNat) (offset : Nat) :
    sweep offset machine.ahead =
      let later := sweep (offset + (program.map (·.size)).sum) middle.ahead
      { later with entries := placed offset program ++ later.entries } := by
  induction executed generalizing offset with
  | nil => rfl
  | @cons machine next after decoded program completed rest ih =>
      have first := completed.ahead
        (kept [] decoded program machine next rfl (.nil machine) completed) reached
      have reachedNext : start ≤ next.ip.toNat := by
        have := completed.ip.1
        omega
      have keptOn : ∀ front one later before after, program = front ++ one :: later →
          next.Executes front before → before.Completes one after →
            before.memory.SameFrom start after.memory := by
        intro front one later before after split along completedLater
        refine kept (decoded :: front) one later before after ?_ (.cons completed along)
          completedLater
        rw [split]
        rfl
      have others := ih keptOn reachedNext (offset + decoded.size)
      rw [sweep_of_ok (decode_ahead completed.1), ← first, others, List.map_cons, List.sum_cons,
        ← Nat.add_assoc]
      rfl

/-! ## Records and entries -/

theorem map_snd_placed (offset : Nat) (program : List Decoded) :
    (Listing.placed offset program).map (·.2) = program := by
  induction program generalizing offset with
  | nil => rfl
  | cons decoded program ih => exact congrArg (decoded :: ·) (ih _)

theorem length_placed (offset : Nat) (program : List Decoded) :
    (Listing.placed offset program).length = program.length := by
  rw [← List.length_map (·.2), map_snd_placed]

theorem listedRecords_placed (address : UInt64) (offset : Nat) (program : List Decoded) :
    listedRecords address (Listing.placed offset program)
      = traceRecords (address + UInt64.ofNat offset) program := by
  induction program generalizing offset with
  | nil => rfl
  | cons decoded program ih =>
      have next := ih (offset + decoded.size)
      rw [UInt64.ofNat_add, ← UInt64.add_assoc] at next
      exact congrArg (.trace (address + UInt64.ofNat offset) decoded.instruction :: ·) next

theorem listedRecords_placed_zero (address : UInt64) (program : List Decoded) :
    listedRecords address (Listing.placed 0 program) = traceRecords address program := by
  have unmoved : address + UInt64.ofNat 0 = address := UInt64.add_zero address
  rw [listedRecords_placed, unmoved]

theorem listedRecords_concat (address : UInt64) (front : List (Nat × Decoded)) (offset : Nat)
    (last : Decoded) :
    listedRecords address (front ++ [(offset, last)])
      = listedRecords address front
        ++ [.trace (address + UInt64.ofNat offset) last.instruction] :=
  List.map_append

/-- Whatever the run comes to, it has shown the front of the listing. -/
theorem Follows.shown_prefix {machine : Machine} {limit : Option Nat} {listing : Listing}
    {report : Report Nat} (follows : machine.Follows limit listing report) :
    ∃ shown closing, shown <+: listing.entries
      ∧ report.log = listedRecords machine.ip shown ++ [closing] ∧ closing.level = .debug := by
  cases follows with
  | @limited front rest after listed executed straight spent =>
      exact ⟨front, _, ⟨rest, listed.symm⟩, rfl, rfl⟩
  | @returned front rest before offset last after listed executed straight left completed returns =>
      refine ⟨front ++ [(offset, last)], _, ⟨rest, ?_⟩, rfl, rfl⟩
      rw [listed, List.append_assoc]
      rfl
  | @failed front rest before offset failing cause listed executed straight left unable =>
      refine ⟨front ++ [(offset, failing)], _, ⟨rest, ?_⟩, rfl, rfl⟩
      rw [listed, List.append_assoc]
      rfl
  | exhausted executed straight left =>
      exact ⟨listing.entries, _, List.prefix_rfl, rfl, rfl⟩

/-! ## The run along the listing -/

/-- What the instructions of a run keep, each of the cycles along its path keeps. -/
theorem KeepsFrom.along {machine : Machine} {limit : Option Nat} {start : Nat}
    (kept : machine.KeepsFrom limit start) {program : List Decoded}
    (straight : ∀ one ∈ program, one.instruction.opcode ≠ .ret)
    (room : ∀ bound ∈ limit, program.length ≤ bound) :
    ∀ front decoded later before after, program = front ++ decoded :: later →
      machine.Executes front before → before.Completes decoded after →
        before.memory.SameFrom start after.memory := by
  intro front decoded later before after split executed completed
  refine kept before decoded after ⟨front, executed, ?_, ?_, completed⟩
  · intro one there
    exact straight one (split ▸ List.mem_append_left _ there)
  · intro bound given
    have := room bound given
    rw [split, List.length_append, List.length_cons] at this
    omega

/-- The whole of the listing, seen from behind the cycles of a run. -/
theorem KeepsFrom.ofBytes_ahead {machine middle : Machine} {limit : Option Nat}
    {program : List Decoded} (kept : machine.KeepsFrom limit machine.ip.toNat)
    (executed : machine.Executes program middle)
    (straight : ∀ one ∈ program, one.instruction.opcode ≠ .ret)
    (room : ∀ bound ∈ limit, program.length ≤ bound) :
    ∃ offset, middle.ip = machine.ip + UInt64.ofNat offset
      ∧ Listing.ofBytes machine.ahead =
        let later := Listing.sweep offset middle.ahead
        { later with entries := Listing.placed 0 program ++ later.entries } := by
  have along := sweep_along executed (kept.along straight room) (Nat.le_refl _) 0
  have moved := executed.ip.1
  rw [Nat.zero_add] at along
  generalize (program.map (·.size)).sum = offset at along moved
  refine ⟨offset, ?_, along⟩
  apply UInt64.toNat.inj
  have bound := middle.ip.toNat_lt
  rw [UInt64.toNat_add, UInt64.toNat_ofNat', moved]
  omega

theorem follows_ofBytes_ahead {machine : Machine} {limit : Option Nat}
    (inside : machine.ip.toNat ≤ machine.memory.size)
    (kept : machine.KeepsFrom limit machine.ip.toNat) {report : Report Nat}
    (ends : machine.Ends limit report) :
    machine.Follows limit (Listing.ofBytes machine.ahead) report := by
  have placedAlong {program : List Decoded} {middle : Machine}
      (executed : machine.Executes program middle) :
      machine.Executes ((Listing.placed 0 program).map (·.2)) middle := by
    rwa [map_snd_placed]
  have placedStraight {program : List Decoded}
      (straight : ∀ one ∈ program, one.instruction.opcode ≠ .ret) :
      ∀ entry ∈ Listing.placed 0 program, entry.2.instruction.opcode ≠ .ret := by
    intro entry there
    have listed : entry.2 ∈ (Listing.placed 0 program).map (·.2) := List.mem_map_of_mem there
    rw [map_snd_placed] at listed
    exact straight _ listed
  cases ends with
  | @stopped program after executed straight spent =>
      have room : ∀ bound ∈ limit, program.length ≤ bound := by simp [spent]
      obtain ⟨offset, -, listing⟩ := kept.ofBytes_ahead executed straight room
      have follows : machine.Follows limit (Listing.ofBytes machine.ahead) _ :=
        .limited (congrArg Listing.entries listing) (placedAlong executed)
          (placedStraight straight) (by rw [length_placed, spent])
      rwa [length_placed, listedRecords_placed_zero] at follows
  | @halted program middle last after executed straight left completed returns =>
      have room : ∀ bound ∈ limit, program.length ≤ bound :=
        fun bound given => Nat.le_of_lt (left bound given)
      obtain ⟨offset, place, listing⟩ := kept.ofBytes_ahead executed straight room
      rw [Listing.sweep_of_ok (decode_ahead completed.1)] at listing
      have follows := Follows.returned (congrArg Listing.entries listing) (placedAlong executed)
        (placedStraight straight) (by rwa [length_placed]) completed returns
      rwa [length_placed, listedRecords_concat, listedRecords_placed_zero, ← place,
        List.append_assoc] at follows
  | @faulted program middle entries fault executed straight left failed =>
      have room : ∀ bound ∈ limit, program.length ≤ bound :=
        fun bound given => Nat.le_of_lt (left bound given)
      obtain ⟨offset, place, listing⟩ := kept.ofBytes_ahead executed straight room
      rcases step_error_cases failed with
        ⟨refused, rfl⟩ | ⟨decoded, cause, fetched, unable, rfl, rfl⟩
      · rw [fetch_of_le (executed.ip_le_of_le inside)] at refused
        split at refused
        next cause missing =>
          injection refused with same
          subst same
          simp only [Listing.sweep_of_error missing, List.append_nil] at listing
          rw [listing, List.append_nil]
          have follows : machine.Follows limit ⟨Listing.placed 0 program, offset, cause⟩ _ :=
            .exhausted (placedAlong executed) (placedStraight straight) (by rwa [length_placed])
          rwa [listedRecords_placed_zero, ← place] at follows
        next => contradiction
      · rw [Listing.sweep_of_ok (decode_ahead fetched)] at listing
        have follows := Follows.failed (congrArg Listing.entries listing) (placedAlong executed)
          (placedStraight straight) (by rwa [length_placed]) unable
        rwa [listedRecords_concat, listedRecords_placed_zero, ← place] at follows

/-- A cycle has one outcome. -/
theorem Completes.unique {machine after after' : Machine} {decoded decoded' : Decoded}
    (completed : machine.Completes decoded after)
    (again : machine.Completes decoded' after') : decoded' = decoded ∧ after' = after := by
  obtain ⟨fetched, stepped⟩ := completed
  obtain ⟨fetchedAgain, steppedAgain⟩ := again
  rw [fetched] at fetchedAgain
  rw [stepped] at steppedAgain
  injection fetchedAgain with sameInstruction
  injection steppedAgain with _ _ sameMachine
  exact ⟨sameInstruction.symm, sameMachine.symm⟩

/-- A run keeps what its first cycle keeps, if it keeps it from there on. -/
theorem KeepsFrom.of_completes {machine next : Machine} {decoded : Decoded} {limit : Option Nat}
    {start : Nat} (completed : machine.Completes decoded next)
    (same : machine.memory.SameFrom start next.memory)
    (others : decoded.instruction.opcode ≠ .ret → next.KeepsFrom (limit.map (· - 1)) start) :
    machine.KeepsFrom limit start := by
  rintro before one after ⟨program, executed, straight, left, completedLater⟩
  cases executed with
  | nil =>
      obtain ⟨rfl, rfl⟩ := completed.unique completedLater
      exact same
  | @cons _ middle _ first program completedFirst rest =>
      obtain ⟨rfl, rfl⟩ := completed.unique completedFirst
      refine others (straight first List.mem_cons_self) before one after
        ⟨program, rest, fun one there => straight one (List.mem_cons_of_mem _ there), ?_,
          completedLater⟩
      intro bound given
      obtain ⟨whole, there, rfl⟩ := Option.map_eq_some_iff.mp given
      have := left whole there
      rw [List.length_cons] at this
      omega

/-- **Static and dynamic decoding.** Let the instruction pointer stand inside memory, or
right behind it, and let no instruction of the run change a byte from there on. What the
run traces is then the front of the listing of the bytes in front of it, made before the
run, with offsets counted from the instruction pointer. The run ends at the first `RET`
listed, at the first instruction listed that cannot be carried out, at its limit, or
behind the whole listing, with the very fault that ends it. -/
theorem run_follows_listing (limit : Option Nat) (machine : Machine)
    (inside : machine.ip.toNat ≤ machine.memory.size)
    (kept : machine.KeepsFrom limit machine.ip.toNat) :
    ∃ bytes shown closing, machine.memory.sliceFrom machine.ip = .ok bytes
      ∧ shown <+: (Listing.ofBytes bytes).entries
      ∧ (machine.run limit).log = listedRecords machine.ip shown ++ [closing]
      ∧ closing.level = .debug
      ∧ machine.Follows limit (Listing.ofBytes bytes) (machine.run limit) := by
  have follows := follows_ofBytes_ahead inside kept (ends_run limit machine)
  obtain ⟨shown, closing, front, log, level⟩ := follows.shown_prefix
  exact ⟨machine.ahead, shown, closing, Memory.sliceFrom_of_le inside, front, log, level, follows⟩

/-- A push to the eight bytes below the code, a `RET`, and an addition that is cut
off. -/
theorem run_follows_listing_pushing :
    let push : Instruction := ⟨.push, ⟨.r1, false⟩, ⟨.r0, false⟩, .generic true none⟩
    let ret : Instruction := ⟨.ret, ⟨.r0, false⟩, ⟨.r0, false⟩, .generic false none⟩
    let image : Memory :=
      ⟨#[0, 0, 0, 0, 0, 0, 0, 0, 0x6b, 0x01, 0x04, 0x00, 0x8c, 0x21], by decide⟩
    let start := ((ofMemory image).setRegister .r0 8).setRegister .r1 42
    let machine := { start with ip := 8 }
    let code : List UInt8 := [0x6b, 0x01, 0x04, 0x00, 0x8c, 0x21]
    let listing : Listing := ⟨[(0, ⟨push, 2⟩), (2, ⟨ret, 2⟩)], 4, .truncated 4 2⟩
    machine.ip.toNat ≤ machine.memory.size ∧ machine.KeepsFrom none machine.ip.toNat
      ∧ machine.memory.sliceFrom machine.ip = .ok code ∧ Listing.ofBytes code = listing
      ∧ (machine.run none).log = [.trace 8 push, .trace 10 ret, .halted 10 2]
      ∧ machine.Follows none listing (machine.run none) := by
  intro push ret image start machine code listing
  let pushed : Machine :=
    { machine.setRegister .r0 0 with
      memory := machine.memory.store 0 (LittleEndian.encode 8 42)
      ip := 10 }
  have pushing : machine.Completes ⟨push, 2⟩ pushed := by
    subst pushed listing machine start image push
    exact ⟨rfl, rfl⟩
  have returning : pushed.Completes ⟨ret, 2⟩ (pushed.advance 2) := by
    subst pushed listing machine start image ret
    exact ⟨rfl, rfl⟩
  have inside : machine.ip.toNat ≤ machine.memory.size := by decide
  have kept : machine.KeepsFrom none 8 := by
    refine .of_completes pushing ?_ fun _ => .of_completes returning (fun _ _ => rfl) ?_
    · intro place behind
      show (machine.memory.store 0 _).bytes[place]? = _
      rw [Memory.getElem?_store, if_neg]
      rintro ⟨-, below, -⟩
      rw [LittleEndian.length_encode] at below
      exact absurd below (Nat.not_lt_of_le behind)
    · exact fun goesOn => absurd rfl goesOn
  have sliced : machine.memory.sliceFrom machine.ip = .ok code := rfl
  have listed : Listing.ofBytes code = listing := by
    have readPush : decode code = .ok ⟨push, 2⟩ := rfl
    have readRet : decode (code.drop 2) = .ok ⟨ret, 2⟩ := rfl
    have refused : decode ((code.drop 2).drop 2) = .error (.truncated 4 2) := rfl
    rw [Listing.ofBytes, Listing.sweep_of_ok readPush, Listing.sweep_of_ok readRet,
      Listing.sweep_of_error refused]
    rfl
  have ran : machine.run none
      = ⟨[.trace 8 push, .trace 10 ret, .halted 10 2], .ok 2, pushed.advance 2⟩ :=
    Ends.run_eq (.halted (.cons pushing (.nil pushed)) (by simp [push]) (by simp) returning rfl)
  obtain ⟨bytes, shown, closing, slicedAgain, -, -, -, follows⟩ :=
    run_follows_listing none machine inside kept
  obtain rfl := Except.ok.inj (sliced.symm.trans slicedAgain)
  rw [listed] at follows
  exact ⟨inside, kept, sliced, listed, by rw [ran], follows⟩

end Machine

end RegisterVM
