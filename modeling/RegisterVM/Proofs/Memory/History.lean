import Mathlib.Algebra.BigOperators.Intervals
import Mathlib.Algebra.BigOperators.Ring.Finset
import RegisterVM.Proofs.Word.Remainder
import RegisterVM.Memory

/-!
# A memory answers from its history

The accesses to a memory are done one after the other, and each of them is
granted or refused on its own. `Session` keeps a memory together with what was
asked of it so far, and `Session.remembered` tells from this record alone what stands
at a place: the byte that the latest access granted there has put in place, or the
one that was there to begin with. That the memory itself holds just these bytes
is the invariant `Session.Faithful`, which every access keeps
(`Session.Faithful.perform`).
-/

namespace RegisterVM

/-! ## Numbers by place -/

namespace LittleEndian

/-- The byte of `value` at a place, the lowest one being at place zero. -/
def digit (value place : Nat) : UInt8 :=
  UInt8.ofNat (value / 256 ^ place)

theorem encode_eq_map_digit (count value : Nat) :
    encode count value = (List.range count).map (digit value) := by
  induction count generalizing value with
  | zero => rfl
  | succ count ih =>
      have shifted (place : Nat) : digit (value / 256) place = digit value (place + 1) := by
        rw [digit, digit, Nat.div_div_eq_div_mul, Nat.pow_succ, Nat.mul_comm]
      have lowest : UInt8.ofNat value = digit value 0 := by rw [digit, Nat.pow_zero, Nat.div_one]
      rw [encode, ih, List.range_succ_eq_map, List.map_cons, List.map_map, lowest]
      exact congrArg (digit value 0 :: ·) (List.map_congr_left fun place _ => shifted place)

theorem decode_map_range (count : Nat) (byteAt : Nat → UInt8) :
    decode ((List.range count).map byteAt)
      = ∑ place ∈ Finset.range count, 256 ^ place * (byteAt place).toNat := by
  induction count generalizing byteAt with
  | zero => rfl
  | succ count ih =>
      rw [List.range_succ_eq_map, List.map_cons, List.map_map, decode, ih,
        Finset.sum_range_succ', Finset.mul_sum, Nat.pow_zero, Nat.one_mul, Nat.add_comm]
      refine congrArg (· + _) (Finset.sum_congr rfl fun place _ => ?_)
      show 256 * (256 ^ place * (byteAt (place + 1)).toNat) = _
      rw [Nat.pow_succ, Nat.mul_comm (256 ^ place) 256, Nat.mul_assoc]

end LittleEndian

/-! ## Accesses -/

/-- The operations on a memory. -/
inductive Access where
  | read (address : UInt64) (width : Width)
  | read8 (address : UInt64)
  | read16 (address : UInt64)
  | read32 (address : UInt64)
  | read64 (address : UInt64)
  | sliceFrom (address : UInt64)
  | write (address : UInt64) (width : Width) (value : UInt64)
  | write8 (address : UInt64) (value : UInt8)
  | write16 (address : UInt64) (value : UInt16)
  | write32 (address : UInt64) (value : UInt32)
  | write64 (address : UInt64) (value : UInt64)
  | load (address : UInt64) (bytes : List UInt8)

/-- What a granted access answers: nothing, a number or a byte string. -/
inductive Answer where
  | done
  | number (value : Nat)
  | bytes (bytes : List UInt8)
  deriving DecidableEq

namespace Access

/-- Looks something up and leaves the memory alone. -/
def look {α : Type} (find : Memory → Except MemoryFault α) (answer : α → Answer) :
    EStateM MemoryFault Memory Answer :=
  fun memory =>
    match find memory with
    | .error fault => .error fault memory
    | .ok found => .ok (answer found) memory

/-- Does the access. -/
def perform : Access → EStateM MemoryFault Memory Answer
  | read address width => look (·.read address width) fun value => .number value.toNat
  | read8 address => look (·.read8 address) fun value => .number value.toNat
  | read16 address => look (·.read16 address) fun value => .number value.toNat
  | read32 address => look (·.read32 address) fun value => .number value.toNat
  | read64 address => look (·.read64 address) fun value => .number value.toNat
  | sliceFrom address => look (·.sliceFrom address) .bytes
  | write address width value => do Memory.write address width value; return .done
  | write8 address value => do Memory.write8 address value; return .done
  | write16 address value => do Memory.write16 address value; return .done
  | write32 address value => do Memory.write32 address value; return .done
  | write64 address value => do Memory.write64 address value; return .done
  | load address bytes => do Memory.load address bytes; return .done

/-- The address that the access starts at. -/
def address : Access → UInt64
  | read address _ | read8 address | read16 address | read32 address | read64 address
  | sliceFrom address
  | write address _ _ | write8 address _ | write16 address _ | write32 address _
  | write64 address _ | load address _ => address

/-- The number of bytes that have to lie inside memory. -/
def length : Access → Nat
  | read _ width | write _ width _ => width.bytes
  | read8 _ | write8 .. => 1
  | read16 _ | write16 .. => 2
  | read32 _ | write32 .. => 4
  | read64 _ | write64 .. => 8
  | sliceFrom _ => 0
  | load _ bytes => bytes.length

/-- The bytes that the access puts in place, counted from its address. -/
def stored? : Access → Option (Nat → UInt8)
  | write _ _ value | write64 _ value => some (LittleEndian.digit value.toNat)
  | write8 _ value => some (LittleEndian.digit value.toNat)
  | write16 _ value => some (LittleEndian.digit value.toNat)
  | write32 _ value => some (LittleEndian.digit value.toNat)
  | load _ bytes => some fun place => bytes.getD place 0
  | _ => none

/-- The byte that the access gives to a place: it covers the place and stores
something. -/
def given? (access : Access) (place : Nat) : Option UInt8 :=
  let start := access.address.toNat
  if start ≤ place ∧ place < start + access.length then
    access.stored?.map (· (place - start))
  else
    none

/-- What the access has to answer if `byteAt` tells the bytes of a memory of `size`
bytes. -/
def expected (access : Access) (size : Nat) (byteAt : Nat → UInt8) : Answer :=
  let start := access.address.toNat
  match access with
  | read .. | read8 .. | read16 .. | read32 .. | read64 .. =>
      .number (∑ place ∈ Finset.range access.length, 256 ^ place * (byteAt (start + place)).toNat)
  | sliceFrom _ => .bytes ((List.range (size - start)).map fun place => byteAt (start + place))
  | _ => .done

end Access

/-- The byte of the memory at a place, zero behind its end. -/
def Memory.byteAt (memory : Memory) (place : Nat) : UInt8 :=
  memory.bytes.getD place 0

/-- What a granted access leaves: the memory with the bytes in place that the
access stores, if it does. -/
def Access.changed (access : Access) (memory : Memory) : Memory :=
  match access.stored? with
  | none => memory
  | some byteAt => memory.store access.address ((List.range access.length).map byteAt)

/-! ## What one access does -/

namespace Memory

theorem getElem?_eq_byteAt {memory : Memory} {place : Nat} (inside : place < memory.size) :
    memory.bytes[place]? = some (memory.byteAt place) := by
  rw [byteAt, Array.getD_eq_getD_getElem?, Array.getElem?_eq_getElem inside]
  rfl

theorem toList_extract (memory : Memory) {start stop : Nat} (inside : stop ≤ memory.size) :
    (memory.bytes.extract start stop).toList
      = (List.range (stop - start)).map fun place => memory.byteAt (start + place) := by
  apply List.ext_getElem?
  intro place
  rw [Array.getElem?_toList, Array.getElem?_extract, show memory.bytes.size = memory.size from rfl,
    Nat.min_eq_left inside, List.getElem?_map]
  by_cases within : place < stop - start
  · rw [if_pos within, List.getElem?_range within, getElem?_eq_byteAt (by omega)]
    rfl
  · rw [if_neg within, List.getElem?_eq_none (by rw [List.length_range]; omega)]
    rfl

/-- The number that the bytes of a window spell, which has room in the window. -/
theorem decode_window (memory : Memory) {start count : Nat} (inside : start + count ≤ memory.size) :
    LittleEndian.decode (memory.window start count)
        = ∑ place ∈ Finset.range count, 256 ^ place * (memory.byteAt (start + place)).toNat
      ∧ LittleEndian.decode (memory.window start count) < 256 ^ count := by
  have shown : memory.window start count
      = (List.range count).map fun place => memory.byteAt (start + place) := by
    rw [window, toList_extract memory inside, Nat.add_sub_cancel_left]
  refine ⟨?_, ?_⟩
  · rw [shown, LittleEndian.decode_map_range]
  · have bound := LittleEndian.decode_lt (memory.window start count)
    rwa [shown, List.length_map, List.length_range, ← shown] at bound

end Memory

namespace Access

/-- A reading of the width answers with the number in memory, whatever word it is
kept in. -/
theorem look_number {word : Type} {find : Memory → Except MemoryFault word}
    (narrow : UInt64 → word) {toNat : word → Nat} (address : UInt64) (width : Width)
    (found : ∀ memory, find memory = (memory.read address width).map narrow)
    (kept : ∀ value : UInt64, value.toNat < 256 ^ width.bytes → toNat (narrow value) = value.toNat)
    (memory : Memory) :
    look find (fun value => .number (toNat value)) memory =
      match memory.check address width.bytes with
      | .error fault => .error fault memory
      | .ok () =>
          .ok (.number (∑ place ∈ Finset.range width.bytes,
            256 ^ place * (memory.byteAt (address.toNat + place)).toNat)) memory := by
  by_cases fits : address.toNat + width.bytes ≤ memory.size
  · have granted : memory.check address width.bytes = .ok () := if_pos fits
    obtain ⟨sum, room⟩ := memory.decode_window fits
    -- No number of the width is too large for a word of 64 bits.
    have whole : (UInt64.ofNat (LittleEndian.decode
        (memory.window address.toNat width.bytes))).toNat
          = LittleEndian.decode (memory.window address.toNat width.bytes) := by
      apply UInt64.toNat_ofNat_of_lt
      exact Nat.lt_of_lt_of_le room (Nat.pow_le_pow_right (by omega) width.bytes_le)
    simp only [look, found, Memory.read, granted, Except.map]
    rw [kept _ (by rw [whole]; exact room), whole, sum]
  · have refused : memory.check address width.bytes = .error (.outOfBounds address width.bytes) :=
      if_neg fits
    simp only [look, found, Memory.read, refused, Except.map]

theorem store_done (address : UInt64) (bytes : List UInt8) (memory : Memory) :
    (do Memory.load address bytes; return Answer.done : EStateM MemoryFault Memory Answer) memory
      = match memory.check address bytes.length with
        | .error fault => .error fault memory
        | .ok () => .ok .done (memory.store address bytes) := by
  simp only [bind, EStateM.bind, Memory.load]
  cases memory.check address bytes.length with
  | error fault => rfl
  | ok _ => rfl

theorem map_getD_range (bytes : List UInt8) :
    (List.range bytes.length).map (fun place => bytes.getD place 0) = bytes := by
  apply List.ext_getElem
  · rw [List.length_map, List.length_range]
  · intro place within inside
    rw [List.getElem_map, List.getElem_range, List.getD_eq_getElem?_getD,
      List.getElem?_eq_getElem inside]
    rfl

/-- A write puts the low bytes of its number in place. -/
theorem write_done (address : UInt64) (width : Width) (value : UInt64) (memory : Memory) :
    (do Memory.write address width value; return Answer.done :
        EStateM MemoryFault Memory Answer) memory
      = match memory.check address width.bytes with
        | .error fault => .error fault memory
        | .ok () =>
            .ok .done (memory.store address
              ((List.range width.bytes).map (LittleEndian.digit value.toNat))) := by
  rw [← LittleEndian.encode_eq_map_digit]
  have stored := store_done address (LittleEndian.encode width.bytes value.toNat) memory
  rwa [LittleEndian.length_encode] at stored

/-- An access is granted exactly if its bytes lie inside memory. It then answers
from the bytes that are there, and leaves the memory with its own in place; else
it leaves the memory as it was. -/
theorem perform_eq (access : Access) (memory : Memory) :
    access.perform memory =
      match memory.check access.address access.length with
      | .error fault => .error fault memory
      | .ok () => .ok (access.expected memory.size memory.byteAt) (access.changed memory) := by
  cases access with
  | read address width =>
      have found (memory : Memory) :
          memory.read address width = (memory.read address width).map id :=
        (congrFun Except.map_id _).symm
      exact look_number id address width found (fun _ _ => rfl) memory
  | read8 address =>
      refine look_number UInt64.toUInt8 address .byte (fun _ => rfl) (fun value fits => ?_) memory
      rw [UInt64.toNat_toUInt8]
      exact Nat.mod_eq_of_lt fits
  | read16 address =>
      refine look_number UInt64.toUInt16 address .word (fun _ => rfl) (fun value fits => ?_) memory
      rw [UInt64.toNat_toUInt16]
      exact Nat.mod_eq_of_lt fits
  | read32 address =>
      refine look_number UInt64.toUInt32 address .double (fun _ => rfl) (fun value fits => ?_)
        memory
      rw [UInt64.toNat_toUInt32]
      exact Nat.mod_eq_of_lt fits
  | read64 address =>
      have found (memory : Memory) :
          memory.read64 address = (memory.read address .quad).map id :=
        (congrFun Except.map_id _).symm
      exact look_number id address .quad found (fun _ _ => rfl) memory
  | sliceFrom address =>
      simp only [perform, look, Memory.sliceFrom, length, Access.address]
      cases memory.check address 0 with
      | error fault => rfl
      | ok _ =>
          simp only [memory.toList_extract (Nat.le_refl _)]
          rfl
  | write address width value => exact write_done address width value memory
  | write8 address value => exact write_done address .byte value.toUInt64 memory
  | write16 address value => exact write_done address .word value.toUInt64 memory
  | write32 address value => exact write_done address .double value.toUInt64 memory
  | write64 address value => exact write_done address .quad value memory
  | load address bytes =>
      have same : (load address bytes).changed memory = memory.store address bytes := by
        show memory.store address ((List.range bytes.length).map fun place => bytes.getD place 0)
          = _
        rw [map_getD_range]
      rw [same]
      exact store_done address bytes memory

end Access

/-! ## Sessions -/

/-- An access that was asked for, and what came of it. -/
structure Event where
  access : Access
  result : Except MemoryFault Answer

/-- The byte that the event gave to a place. What was refused gave none. -/
def Event.given? (event : Event) (place : Nat) : Option UInt8 :=
  match event.result with
  | .error _ => none
  | .ok _ => event.access.given? place

/-- A memory with the record of what was asked of it, the latest event first. -/
structure Session where
  memory : Memory
  past : List Event

namespace Session

/-- The session after one more access. -/
def perform (session : Session) (access : Access) : Session :=
  match access.perform session.memory with
  | .error fault memory => ⟨memory, ⟨access, .error fault⟩ :: session.past⟩
  | .ok answer memory => ⟨memory, ⟨access, .ok answer⟩ :: session.past⟩

/-- What stands at a place of a memory that started as `initial`, from the record
alone: what the latest event gave that gave anything to the place, or the byte that
was there first. -/
def remembered (session : Session) (initial : Memory) (place : Nat) : UInt8 :=
  (session.past.findSome? (·.given? place)).getD (initial.byteAt place)

/-- The memory is as large as it was at first, and holds what the record tells. -/
structure Faithful (initial : Memory) (session : Session) : Prop where
  size : session.memory.size = initial.size
  byte : ∀ place < initial.size, session.memory.byteAt place = session.remembered initial place

end Session

/-- The session of a memory of which nothing was asked yet, after the accesses. -/
def Memory.session (memory : Memory) (accesses : List Access) : Session :=
  accesses.foldl Session.perform ⟨memory, []⟩

/-! ## The invariant -/

theorem Access.size_changed (access : Access) (memory : Memory) :
    (access.changed memory).size = memory.size := by
  unfold changed
  split
  next => rfl
  next => exact Memory.size_store _ _ _

/-- What a granted access leaves at a place: its own byte, if it gives one. -/
theorem Access.byteAt_changed (access : Access) (memory : Memory) {place : Nat}
    (inside : place < memory.size) :
    (access.changed memory).byteAt place = (access.given? place).getD (memory.byteAt place) := by
  unfold changed given?
  cases access.stored? with
  | none => simp
  | some byteOf =>
      simp only [Memory.byteAt, Array.getD_eq_getD_getElem?, Memory.getElem?_store,
        List.length_map, List.length_range]
      by_cases covered : access.address.toNat ≤ place
          ∧ place < access.address.toNat + access.length
      · rw [if_pos covered, if_pos ⟨covered.1, covered.2, inside⟩, List.getElem?_map,
          List.getElem?_range (by omega)]
        rfl
      · rw [if_neg covered, if_neg fun within => covered ⟨within.1, within.2.1⟩]
        rfl

namespace Session

/-- Every access keeps the invariant, whether it is granted or refused. -/
theorem Faithful.perform {initial : Memory} {session : Session}
    (faithful : session.Faithful initial) (access : Access) :
    (session.perform access).Faithful initial := by
  have result := access.perform_eq session.memory
  cases checked : session.memory.check access.address access.length with
  | error fault =>
      -- The new event gives no byte, so that the record tells what it told before.
      rw [checked] at result
      simp only [Session.perform, result]
      exact ⟨faithful.size, faithful.byte⟩
  | ok _ =>
      rw [checked] at result
      simp only [Session.perform, result]
      refine ⟨(access.size_changed session.memory).trans faithful.size, ?_⟩
      intro place inside
      show (access.changed session.memory).byteAt place = _
      rw [access.byteAt_changed _ (faithful.size ▸ inside), faithful.byte place inside]
      simp only [remembered, List.findSome?_cons, Event.given?]
      cases access.given? place <;> rfl

theorem faithful_session (memory : Memory) (accesses : List Access) :
    (memory.session accesses).Faithful memory := by
  have along (session : Session) (faithful : session.Faithful memory) :
      (accesses.foldl Session.perform session).Faithful memory := by
    induction accesses generalizing session with
    | nil => exact faithful
    | cons access accesses ih => exact ih _ (faithful.perform access)
  exact along _ ⟨rfl, fun _ _ => rfl⟩

end Session

/-- What is answered depends on the bytes inside memory alone. -/
theorem Access.expected_congr (access : Access) {size : Nat} {byteAt byteAt' : Nat → UInt8}
    (fits : access.address.toNat + access.length ≤ size)
    (same : ∀ place < size, byteAt place = byteAt' place) :
    access.expected size byteAt = access.expected size byteAt' := by
  have number : ∑ place ∈ Finset.range access.length,
        256 ^ place * (byteAt (access.address.toNat + place)).toNat
      = ∑ place ∈ Finset.range access.length,
        256 ^ place * (byteAt' (access.address.toNat + place)).toNat := by
    refine Finset.sum_congr rfl fun place within => ?_
    have := Finset.mem_range.mp within
    rw [same _ (by omega)]
  have rest : (List.range (size - access.address.toNat)).map
        (fun place => byteAt (access.address.toNat + place))
      = (List.range (size - access.address.toNat)).map
        (fun place => byteAt' (access.address.toNat + place)) := by
    refine List.map_congr_left fun place within => ?_
    have := List.mem_range.mp within
    exact same _ (by omega)
  cases access with
  | read | read8 | read16 | read32 | read64 => exact congrArg Answer.number number
  | sliceFrom => exact congrArg Answer.bytes rest
  | write | write8 | write16 | write32 | write64 | load => rfl

/-- **Memory is its history.** After any accesses to a memory, one more is granted
exactly if the bytes that it asks for lie inside memory, by sums that do not wrap; it
is refused with its own address and length otherwise, and leaves the memory alone. The
size never changes. What is answered comes from the bytes put in place by the latest
accesses granted, and from the first ones: the number that they spell, the least
significant first, or the bytes from an address to the end. -/
theorem access_answers_history (memory : Memory) (earlier : List Access) (access : Access) :
    let session := memory.session earlier
    let fits := access.address.toNat + access.length ≤ memory.size
    session.memory.size = memory.size
    ∧ ((∃ answer after, access.perform session.memory = .ok answer after) ↔ fits)
    ∧ (¬fits → access.perform session.memory
        = .error (.outOfBounds access.address access.length) session.memory)
    ∧ (∀ answer after, access.perform session.memory = .ok answer after →
        answer = access.expected memory.size (session.remembered memory)
          ∧ after.size = memory.size) := by
  intro session fits
  have faithful := Session.faithful_session memory earlier
  have result := access.perform_eq session.memory
  by_cases granted : fits
  · have checked : session.memory.check access.address access.length = .ok () :=
      if_pos (by rw [faithful.size]; exact granted)
    rw [checked] at result
    refine ⟨faithful.size, ⟨fun _ => granted, fun _ => ⟨_, _, result⟩⟩, ?_, ?_⟩
    · intro refused
      exact absurd granted refused
    · intro answer after performed
      rw [result] at performed
      injection performed with sameAnswer sameMemory
      subst sameAnswer sameMemory
      refine ⟨?_, (access.size_changed session.memory).trans faithful.size⟩
      rw [faithful.size]
      exact access.expected_congr granted faithful.byte
  · have checked : session.memory.check access.address access.length
        = .error (.outOfBounds access.address access.length) :=
      if_neg (by rw [faithful.size]; exact granted)
    rw [checked] at result
    refine ⟨faithful.size, ⟨?_, fun fit => absurd fit granted⟩, fun _ => result, ?_⟩
    · rintro ⟨answer, after, performed⟩
      rw [result] at performed
      contradiction
    · intro answer after performed
      rw [result] at performed
      contradiction

/-- A double, part of which is loaded over, with refused accesses around it: at an
address whose range runs out of memory, and at the last address of all. -/
theorem access_answers_history_overlapping :
    let memory : Memory := ⟨#[1, 2, 3, 4, 5, 6, 7, 8], by decide⟩
    let held : Memory := ⟨#[1, 0xaa, 0xbb, 0x77, 0x66, 6, 7, 8], by decide⟩
    let session := memory.session
      [.write 1 .double 0xddccbbaa, .write32 6 0, .load 3 [0x77, 0x66],
        .write8 0xffffffffffffffff 1]
    let reading := Access.read 2 .double
    let slice := Access.sliceFrom 4
    let beyond := Access.read64 0xfffffffffffffff9
    session.memory = held
      ∧ (reading.perform held = .ok (.number 0x066677bb) held
        ∧ .number 0x066677bb = reading.expected memory.size (session.remembered memory))
      ∧ (slice.perform held = .ok (.bytes [0x66, 6, 7, 8]) held
        ∧ .bytes [0x66, 6, 7, 8] = slice.expected memory.size (session.remembered memory))
      ∧ (¬(beyond.address.toNat + beyond.length ≤ memory.size)
        ∧ beyond.perform held = .error (.outOfBounds beyond.address beyond.length) held) := by
  intro memory held session reading slice beyond
  have asked : session.memory = held := by
    subst session held memory
    rfl
  have readThere : reading.perform held = .ok (.number 0x066677bb) held := by
    subst reading held
    rfl
  have slicedThere : slice.perform held = .ok (.bytes [0x66, 6, 7, 8]) held := by
    subst slice held
    rfl
  have outside : ¬(beyond.address.toNat + beyond.length ≤ memory.size) := by decide
  obtain ⟨-, -, -, read⟩ := access_answers_history memory _ reading
  obtain ⟨-, -, -, sliced⟩ := access_answers_history memory _ slice
  obtain ⟨-, -, refused, -⟩ := access_answers_history memory _ beyond
  have told := (read _ _ (asked ▸ readThere)).1
  have toldToo := (sliced _ _ (asked ▸ slicedThere)).1
  exact ⟨asked, ⟨readThere, told⟩, ⟨slicedThere, toldToo⟩, outside,
    asked ▸ refused outside⟩

end RegisterVM
