import RegisterVM.Proofs.Machine.Contents

/-!
# The discipline of the stack

Pushes fill slots below the stack pointer, one below the other, and pops into registers
take them off again. `pushedSlots` and `poppedSlots` tell what goes on the stack and what
comes off it. That the slots stand in memory from the stack pointer up, the latest first,
is the invariant `Machine.Stacks`: a push puts one in front (`Machine.Stacks.push`), and a
pop of its width takes the front one off (`Machine.Stacks.pop`). The main result is
`pops_answer_pushes`: pops in reverse order give back what the pushes took, and leave the
stack pointer where it was.
-/

namespace RegisterVM

/-! ## Slots -/

/-- A number on the stack, and the width of its slot. -/
structure Slot where
  width : Width
  number : Nat
  deriving DecidableEq

/-- The bytes that the slots fill, from the stack pointer up. -/
def stackBytes (slots : List Slot) : List UInt8 :=
  slots.flatMap fun slot => LittleEndian.encode slot.width.bytes slot.number

/-- The slot that a push fills: with the number that its operand stands for on the machine as it
is before the push. -/
def Instruction.slot (push : Instruction) (machine : Machine) : Slot where
  width := push.operationWidth
  number := push.operand1.source machine push.immediate? push.operationWidth

/-- The slots that pushes fill when they are executed one after the other, each on the machine
that the ones before it left. -/
def pushedSlots : List Instruction → Machine → List Slot
  | [], _ => []
  | push :: later, machine =>
      match execute push machine with
      | .error _ _ => []
      | .ok _ after => push.slot machine :: pushedSlots later after

/-- What pops leave in their registers when they are executed one after the other, each as it is
right after its pop. -/
def poppedSlots : List Instruction → Machine → List Slot
  | [], _ => []
  | pop :: later, machine =>
      match execute pop machine with
      | .error _ _ => []
      | .ok _ after =>
          ⟨pop.operationWidth, (after.register pop.operand1.register).toNat⟩
            :: poppedSlots later after

theorem stackBytes_cons (slot : Slot) (slots : List Slot) :
    stackBytes (slot :: slots)
      = LittleEndian.encode slot.width.bytes slot.number ++ stackBytes slots :=
  List.flatMap_cons

theorem stackBytes_append (upper lower : List Slot) :
    stackBytes (upper ++ lower) = stackBytes upper ++ stackBytes lower :=
  List.flatMap_append

theorem executeAll_append {front later : List Instruction} {machine middle after : Machine}
    (first : executeAll front machine = .ok () middle)
    (all : executeAll (front ++ later) machine = .ok () after) :
    executeAll later middle = .ok () after := by
  induction front generalizing machine with
  | nil =>
      injection first with _ same
      exact same ▸ all
  | cons instruction front ih =>
      obtain ⟨_, next, done, rest⟩ := executeAll_cons first
      obtain ⟨_, _, doneToo, restToo⟩ := executeAll_cons all
      rw [done] at doneToo
      injection doneToo with _ same
      subst same
      exact ih rest restToo

/-! ## One push -/

/-- A slot that lies inside memory starts as far below the stack pointer as it is wide. -/
theorem toNat_slotAddress {memory : Memory} {pointer : UInt64} {width : Width}
    (inside : (pointer - UInt64.ofNat width.bytes).toNat + width.bytes ≤ memory.size) :
    (pointer - UInt64.ofNat width.bytes).toNat + width.bytes = pointer.toNat := by
  have size : memory.size < 2 ^ 64 := memory.size_lt
  have narrow : width.bytes ≤ 8 := width.bytes_le
  have bound : pointer.toNat < 2 ^ 64 := pointer.toNat_lt
  rw [UInt64.toNat_sub, UInt64.toNat_ofNat', Nat.mod_eq_of_lt (a := width.bytes) (by omega)]
    at inside ⊢
  omega

section

variable {push : Instruction} {machine after : Machine} {outcome : Outcome}

/-- A push that succeeds moves the stack pointer down by its width and stores the bytes of its slot
from there on. -/
theorem execute_push (opcode : push.opcode = .push)
    (done : execute push machine = .ok outcome after) :
    ∃ address : UInt64,
      address.toNat + push.operationWidth.bytes = (machine.register .r0).toNat
        ∧ (machine.register .r0).toNat ≤ machine.memory.size
        ∧ (push.slot machine).number < 2 ^ push.operationWidth.bits
        ∧ after.register .r0 = address
        ∧ after.memory = machine.memory.store address
          (LittleEndian.encode push.operationWidth.bytes (push.slot machine).number)
        ∧ ∀ register, register ≠ .r0 → after.register register = machine.register register := by
  obtain ⟨-, writes, resolves, rfl⟩ := execute_eq_ok_iff.mp done
  cases resolves with
  | push _ read fits =>
      have inside : (machine.register .r0 - UInt64.ofNat push.operationWidth.bytes).toNat
          + push.operationWidth.bytes ≤ machine.memory.size := Location.inside_of_check fits
      have above := toNat_slotAddress inside
      have carrier : push.carrier = push.operand1 := by rw [Instruction.carrier, opcode]
      have number := Instruction.toNat_source read
      rw [carrier] at number
      refine ⟨_, above, above ▸ inside, ?_, ?_, ?_, ?_⟩
      · exact push.operand1.source_lt machine push.immediate? push.operationWidth
      · rw [List.foldl_cons, List.foldl_cons, List.foldl_nil, Machine.register_apply, if_pos rfl]
        rfl
      · rw [Instruction.slot, ← number]
        rfl
      · intro register other
        rw [List.foldl_cons, List.foldl_cons, List.foldl_nil, Machine.register_apply,
          if_neg fun same => other (Location.register.inj same).symm, Machine.register_apply,
          if_neg Location.noConfusion]
  | nop other | ret other | unary other | binary other | pop other | move other =>
      rw [opcode] at other
      contradiction

end

/-! ## One pop -/

/-- The instruction pops into a register other than the stack pointer. -/
structure Instruction.PopsRegister (instruction : Instruction) : Prop where
  opcode : instruction.opcode = .pop
  direct : instruction.operand1.indirect = false
  target : instruction.operand1.register ≠ .r0

/-- Such a pop succeeds if its slot can be read. It puts what it read in its register, moves the
stack pointer up by its width, and changes nothing else. -/
theorem execute_pop {pop : Instruction} {machine : Machine} {value : UInt64}
    (pops : pop.PopsRegister)
    (found : machine.memory.read (machine.register .r0) pop.operationWidth = .ok value) :
    ∃ after, execute pop machine = .ok .continue after
      ∧ after.memory = machine.memory
      ∧ after.register .r0 = machine.register .r0 + UInt64.ofNat pop.operationWidth.bytes
      ∧ after.register pop.operand1.register = pop.operationWidth.truncate value
      ∧ ∀ register, register ≠ .r0 → pop.operand1.register ≠ register →
        after.register register = machine.register register := by
  have location : pop.operand1.location machine pop.carrierIndex?
      = .register pop.operand1.register := by
    rw [Operand.location, if_neg (by rw [pops.direct]; exact Bool.false_ne_true)]
  have read : (Location.memory (machine.register .r0)).read machine pop.operationWidth
      = .ok value := by
    rw [Location.read, found]
    rfl
  have resolves := Instruction.Resolves.pop pops.opcode read (by rw [location]; rfl)
  rw [location] at resolves
  refine ⟨_, execute_eq_ok_iff.mpr ⟨by rw [pops.opcode]; rfl, _, resolves, rfl⟩, ?_⟩
  rw [List.foldl_cons, List.foldl_cons, List.foldl_nil]
  have notPointer {register : Register} (other : register ≠ .r0) :
      Location.register .r0 ≠ .register register :=
    fun same => other (Location.register.inj same).symm
  refine ⟨rfl, ?_, ?_, ?_⟩
  · rw [Machine.register_apply, if_pos rfl]
    rfl
  · rw [Machine.register_apply, if_neg (notPointer pops.target), Machine.register_apply, if_pos rfl]
  · intro register other apart
    rw [Machine.register_apply, if_neg (notPointer other), Machine.register_apply,
      if_neg fun same => apart (Location.register.inj same)]

/-! ## The invariant -/

namespace Machine

variable {machine after top : Machine} {bottom : Nat} {slots : List Slot}

/-- The slots fill memory from the stack pointer up to `bottom`, the latest first. -/
structure Stacks (machine : Machine) (bottom : Nat) (slots : List Slot) : Prop where
  extent : (machine.register .r0).toNat + (stackBytes slots).length = bottom
  held : machine.memory.Holds (machine.register .r0).toNat (stackBytes slots)
  fits : ∀ slot ∈ slots, slot.number < 2 ^ slot.width.bits

/-- The stack pointer is as low as before or lower, and all is kept but for it and the bytes that
it went over. -/
structure Lowers (machine top : Machine) : Prop where
  pointer : (top.register .r0).toNat ≤ (machine.register .r0).toNat
  register : ∀ register, register ≠ .r0 → top.register register = machine.register register
  byte : ∀ place,
    place < (top.register .r0).toNat ∨ (machine.register .r0).toNat ≤ place →
      top.memory.bytes[place]? = machine.memory.bytes[place]?

theorem Lowers.refl (machine : Machine) : machine.Lowers machine :=
  ⟨Nat.le_refl _, fun _ _ => rfl, fun _ _ => rfl⟩

theorem Lowers.trans {middle : Machine} (first : machine.Lowers middle)
    (second : middle.Lowers top) : machine.Lowers top where
  pointer := Nat.le_trans second.pointer first.pointer
  register register other := (second.register register other).trans (first.register register other)
  byte place outside := by
    have low := first.pointer
    have lower := second.pointer
    rw [second.byte place (by omega), first.byte place (by omega)]

section

variable {instruction : Instruction} {outcome : Outcome}

theorem Lowers.of_push (opcode : instruction.opcode = .push)
    (done : execute instruction machine = .ok outcome after) : machine.Lowers after := by
  obtain ⟨address, above, _, _, pointer, stored, others⟩ := execute_push opcode done
  refine ⟨?_, others, ?_⟩
  · rw [pointer]
    omega
  · intro place outside
    rw [pointer] at outside
    rw [stored, Memory.getElem?_store, LittleEndian.length_encode, if_neg (by omega)]

/-- A push puts its slot in front of the others. -/
theorem Stacks.push (stack : machine.Stacks bottom slots) (opcode : instruction.opcode = .push)
    (done : execute instruction machine = .ok outcome after) :
    after.Stacks bottom (instruction.slot machine :: slots) := by
  obtain ⟨address, above, inside, room, pointer, stored, _⟩ := execute_push opcode done
  have length : (LittleEndian.encode instruction.operationWidth.bytes
      (instruction.slot machine).number).length = instruction.operationWidth.bytes :=
    LittleEndian.length_encode _ _
  refine ⟨?_, ?_, ?_⟩
  · have extent := stack.extent
    rw [pointer, stackBytes_cons, List.length_append, LittleEndian.length_encode]
    show address.toNat + (instruction.operationWidth.bytes + _) = bottom
    omega
  · rw [pointer, stored, stackBytes_cons]
    -- The new bytes end where the others start.
    refine (Memory.holds_store ?_).append ?_
    · rw [length]
      omega
    · rw [length, above]
      exact stack.held.store (by rw [length]; omega)
  · intro slot listed
    rcases List.mem_cons.mp listed with rfl | earlier
    · exact room
    · exact stack.fits slot earlier

end

/-- A pop of the width of the front slot into a register takes the slot off, and leaves memory and
all other registers alone. -/
theorem Stacks.pop {instruction : Instruction} {slot : Slot}
    (stack : machine.Stacks bottom (slot :: slots)) (pops : instruction.PopsRegister)
    (width : instruction.operationWidth = slot.width) :
    ∃ after, execute instruction machine = .ok .continue after
      ∧ after.Stacks bottom slots
      ∧ after.memory = machine.memory
      ∧ (after.register instruction.operand1.register).toNat = slot.number
      ∧ ∀ register, register ≠ .r0 → instruction.operand1.register ≠ register →
        after.register register = machine.register register := by
  have room := stack.fits slot List.mem_cons_self
  have held := stack.held
  have extent := stack.extent
  rw [stackBytes_cons] at held extent
  rw [List.length_append, LittleEndian.length_encode] at extent
  have length : (LittleEndian.encode slot.width.bytes slot.number).length = slot.width.bytes :=
    LittleEndian.length_encode _ _
  have inside := held.front.le_size (by rw [length]; exact slot.width.bytes_pos)
  rw [length] at inside
  have found : machine.memory.read (machine.register .r0) instruction.operationWidth
      = .ok (.ofNat slot.number) := by
    rw [width]
    exact held.front.read_eq room
  obtain ⟨after, done, memory, pointer, taken, others⟩ := execute_pop pops found
  -- The slot ends inside memory, so that the stack pointer does not wrap.
  have raised : (after.register .r0).toNat = (machine.register .r0).toNat + slot.width.bytes := by
    have size : machine.memory.size < 2 ^ 64 := machine.memory.size_lt
    have narrow : slot.width.bytes ≤ 8 := slot.width.bytes_le
    rw [pointer, width, UInt64.toNat_add, UInt64.toNat_ofNat']
    omega
  refine ⟨after, done, ⟨?_, ?_, ?_⟩, memory, ?_, others⟩
  · rw [raised]
    omega
  · rw [memory, raised]
    have behind := held.later fun _ _ _ => rfl
    rwa [length] at behind
  · intro one listed
    exact stack.fits one (List.mem_cons_of_mem _ listed)
  · have word : 2 ^ slot.width.bits ≤ 2 ^ 64 := Nat.pow_le_pow_right (by decide) slot.width.bits_le
    rw [taken, width, Width.toNat_truncate, UInt64.toNat_ofNat',
      Nat.mod_eq_of_lt (Nat.lt_of_lt_of_le room word), Nat.mod_eq_of_lt room]

/-! ## Runs of pushes and of pops -/

variable {pushes pops : List Instruction}

theorem Lowers.of_pushes (pushing : ∀ push ∈ pushes, push.opcode = .push)
    (filled : executeAll pushes machine = .ok () top) : machine.Lowers top := by
  induction pushes generalizing machine with
  | nil =>
      injection filled with _ same
      exact same ▸ .refl machine
  | cons push pushes ih =>
      obtain ⟨outcome, middle, done, rest⟩ := executeAll_cons filled
      rw [List.forall_mem_cons] at pushing
      exact (Lowers.of_push pushing.1 done).trans (ih pushing.2 rest)

/-- Pushes put their slots in front of the others, the latest first. -/
theorem Stacks.pushAll (stack : machine.Stacks bottom slots)
    (pushing : ∀ push ∈ pushes, push.opcode = .push)
    (filled : executeAll pushes machine = .ok () top) :
    top.Stacks bottom ((pushedSlots pushes machine).reverse ++ slots) := by
  -- The slots so far are generalized with the machine: each push adds to them.
  induction pushes generalizing machine slots with
  | nil =>
      injection filled with _ same
      exact same ▸ stack
  | cons push pushes ih =>
      obtain ⟨outcome, middle, done, rest⟩ := executeAll_cons filled
      rw [List.forall_mem_cons] at pushing
      simp only [pushedSlots, done, List.reverse_cons, List.append_assoc, List.singleton_append]
      exact ih (stack.push pushing.1 done) pushing.2 rest

theorem map_width_pushedSlots (filled : executeAll pushes machine = .ok () top) :
    (pushedSlots pushes machine).map (·.width) = pushes.map (·.operationWidth) := by
  induction pushes generalizing machine with
  | nil => rfl
  | cons push pushes ih =>
      obtain ⟨outcome, middle, done, rest⟩ := executeAll_cons filled
      simp only [pushedSlots, done, List.map_cons, ih rest]
      rfl

/-- Pops of the widths of the front slots all succeed and take these slots off, and leave memory
and all registers alone that they do not pop into. -/
theorem Stacks.popAll {front later : List Slot} (stack : machine.Stacks bottom (front ++ later))
    (popping : ∀ pop ∈ pops, pop.PopsRegister)
    (matching : pops.map (·.operationWidth) = front.map (·.width)) :
    ∃ after, executeAll pops machine = .ok () after
      ∧ after.Stacks bottom later
      ∧ poppedSlots pops machine = front
      ∧ after.memory = machine.memory
      ∧ ∀ register, register ≠ .r0 → (∀ pop ∈ pops, pop.operand1.register ≠ register) →
        after.register register = machine.register register := by
  induction pops generalizing machine front with
  | nil =>
      obtain rfl := List.map_eq_nil_iff.mp matching.symm
      exact ⟨machine, rfl, stack, rfl, rfl, fun _ _ _ => rfl⟩
  | cons pop pops ih =>
      cases front with
      | nil => contradiction
      | cons slot front =>
          rw [List.map_cons, List.map_cons, List.cons.injEq] at matching
          rw [List.forall_mem_cons] at popping
          obtain ⟨middle, done, rest, memory, taken, others⟩ :=
            Stacks.pop stack popping.1 matching.1
          obtain ⟨after, all, emptied, slots, memoryToo, othersToo⟩ :=
            ih rest popping.2 matching.2
          refine ⟨after, ?_, emptied, ?_, memoryToo.trans memory, ?_⟩
          · simp only [executeAll, bind, EStateM.bind, done]
            exact all
          · simp only [poppedSlots, done, slots, taken, matching.1]
          · intro register other apart
            rw [List.forall_mem_cons] at apart
            rw [othersToo register other apart.2, others register other apart.1]

/-- The stack pointer is not below where it was as long as the pops go on. -/
theorem Stacks.le_of_popped {middle : Machine} {later : List Width}
    (stack : machine.Stacks bottom slots) (popping : ∀ pop ∈ pops, pop.PopsRegister)
    (matching : pops.map (·.operationWidth) ++ later = slots.map (·.width))
    (executed : executeAll pops machine = .ok () middle) :
    (machine.register .r0).toNat ≤ (middle.register .r0).toNat := by
  obtain ⟨taken, left, rfl, widths, _⟩ := List.map_eq_append_iff.mp matching.symm
  have extent := stack.extent
  obtain ⟨_, executedToo, rest, _⟩ := stack.popAll popping widths.symm
  rw [executed] at executedToo
  injection executedToo with _ same
  subst same
  have extentLeft := rest.extent
  rw [stackBytes_append, List.length_append] at extent
  omega

end Machine

/-- **Stack discipline.** Let pushes of any widths and operands all succeed one after the other.
Then pops of their widths in reverse order, each into a register other than the stack pointer, all
succeed, and take off what the pushes put on: each leaves in its register, with nothing above the
width, the number that the operand of its push stood for just before the push. In the end the stack
pointer is what it was at first, and so is every register that is not popped into, and all of
memory but for bytes between the lowest stack pointer, which is the one between the pushes and the
pops, and the first one. -/
theorem pops_answer_pushes (pushes pops : List Instruction) (machine top : Machine)
    (pushing : ∀ push ∈ pushes, push.opcode = .push)
    (popping : ∀ pop ∈ pops, pop.PopsRegister)
    (matching : pops.map (·.operationWidth) = (pushes.map (·.operationWidth)).reverse)
    (filled : executeAll pushes machine = .ok () top) :
    ∃ after, executeAll pops top = .ok () after
      ∧ poppedSlots pops top = (pushedSlots pushes machine).reverse
      ∧ after.register .r0 = machine.register .r0
      ∧ (∀ register, (∀ pop ∈ pops, pop.operand1.register ≠ register) →
        after.register register = machine.register register)
      ∧ (∀ place, after.memory.bytes[place]? ≠ machine.memory.bytes[place]? →
        (top.register .r0).toNat ≤ place ∧ place < (machine.register .r0).toNat)
      ∧ (∀ front later middle, pushes = front ++ later →
        executeAll front machine = .ok () middle → top.register .r0 ≤ middle.register .r0)
      ∧ (∀ front later middle, pops = front ++ later →
        executeAll front top = .ok () middle → top.register .r0 ≤ middle.register .r0) := by
  have empty : machine.Stacks (machine.register .r0).toNat [] :=
    ⟨rfl, fun _ none => absurd none (Nat.not_lt_zero _), fun _ none => absurd none List.not_mem_nil⟩
  have stack := empty.pushAll pushing filled
  have lowers := Machine.Lowers.of_pushes pushing filled
  have widths : pops.map (·.operationWidth)
      = (pushedSlots pushes machine).reverse.map (·.width) := by
    rw [matching, ← Machine.map_width_pushedSlots filled, List.map_reverse]
  obtain ⟨after, emptied, rest, slots, memory, others⟩ := stack.popAll popping widths
  have pointer : after.register .r0 = machine.register .r0 := by
    refine UInt64.toNat.inj ?_
    have extent := rest.extent
    rwa [show stackBytes [] = [] from rfl, List.length_nil, Nat.add_zero] at extent
  refine ⟨after, emptied, slots, pointer, ?_, ?_, ?_, ?_⟩
  · -- Neither the pushes nor the pops touch a register that is not popped into.
    intro register apart
    by_cases same : register = .r0
    · rw [same, pointer]
    · rw [others register same apart, lowers.register register same]
  · -- The pops write no memory, so that a change is one of the pushes.
    intro place changed
    by_contra outside
    refine changed ?_
    rw [memory, lowers.byte place (by omega)]
  · -- What the pushes still to come do is lower the stack pointer.
    intro front later middle split executed
    subst split
    have remaining := executeAll_append executed filled
    rw [UInt64.le_iff_toNat_le]
    exact (Machine.Lowers.of_pushes
      (fun push listed => pushing push (List.mem_append_right _ listed)) remaining).pointer
  · -- What the pops before have done is raise it.
    intro front later middle split executed
    subst split
    rw [List.append_nil] at stack
    rw [UInt64.le_iff_toNat_le]
    exact stack.le_of_popped (fun pop listed => popping pop (List.mem_append_left _ listed))
      (List.map_append.symm.trans widths) executed

/-- Slots of both widths: a register, what the stack itself holds, and the stack pointer with an
immediate. Two of the pops are into one register. -/
theorem pops_answer_pushes_mixed :
    let image : Memory :=
      ⟨#[0, 0, 0, 0, 0, 0, 0, 0, 0, 0, 0, 0, 0, 0, 0, 0, 0, 0, 0, 0, 0, 0, 0, 9], by decide⟩
    let machine := ((Machine.ofMemory image).setRegister .r0 23).setRegister .r1 0x1122334455667788
    let pushes : List Instruction :=
      [⟨.push, ⟨.r1, false⟩, ⟨.r0, false⟩, .generic true none⟩,
       ⟨.push, ⟨.r0, true⟩, ⟨.r0, false⟩, .generic false none⟩,
       ⟨.push, ⟨.r0, false⟩, ⟨.r0, false⟩, .generic true (some 5)⟩]
    let pops : List Instruction :=
      [⟨.pop, ⟨.r2, false⟩, ⟨.r0, false⟩, .generic true none⟩,
       ⟨.pop, ⟨.r1, false⟩, ⟨.r0, false⟩, .generic false (some 1)⟩,
       ⟨.pop, ⟨.r2, false⟩, ⟨.r0, false⟩, .generic true none⟩]
    let stacked : Memory :=
      ⟨#[0, 0, 0, 16, 0, 0, 0, 0, 0, 0, 0, 0x88, 0x77, 0x66, 0x55, 0x88, 0x77, 0x66, 0x55,
        0x44, 0x33, 0x22, 0x11, 9], by decide⟩
    let top := { machine.setRegister .r0 3 with memory := stacked }
    executeAll pushes machine = .ok () top
      ∧ ∃ after, executeAll pops top = .ok () after
        ∧ poppedSlots pops top
          = [⟨.quad, 16⟩, ⟨.double, 0x55667788⟩, ⟨.quad, 0x1122334455667788⟩]
        ∧ after.register .r0 = 23 ∧ after.register .r3 = 0
        ∧ after.memory.bytes[23]? = some 9 := by
  intro image machine pushes pops stacked top
  have filled : executeAll pushes machine = .ok () top := by
    subst top stacked pops pushes machine image
    rfl
  have popping : ∀ pop ∈ pops, pop.PopsRegister := by
    intro pop listed
    simp only [pops, List.mem_cons, List.not_mem_nil, or_false] at listed
    rcases listed with rfl | rfl | rfl <;> exact ⟨rfl, rfl, by decide⟩
  obtain ⟨after, emptied, slots, pointer, others, bytes, -, -⟩ :=
    pops_answer_pushes pushes pops machine top (by decide) popping (by decide) filled
  have pushed : pushedSlots pushes machine
      = [⟨.quad, 0x1122334455667788⟩, ⟨.double, 0x55667788⟩, ⟨.quad, 16⟩] := by
    decide +kernel
  rw [pushed] at slots
  refine ⟨filled, after, emptied, slots, pointer, others .r3 (by decide), ?_⟩
  by_contra changed
  exact absurd (bytes 23 changed).2 (by decide)

end RegisterVM
