import RegisterVM.Fault
import RegisterVM.Width
import RegisterVM.Word.LittleEndian

/-!
# Memory

A flat region of bytes, addressed from zero. An access of any length may start
at any address, and values of several bytes are stored little-endian. An access
that does not lie inside the region as a whole is refused.

`write` and `load` are the only operations that change a memory, and both go
through `store`, which puts bytes in place; `getElem?_store` gives each byte
after it, and `size_store` says that the size is kept.
-/

namespace RegisterVM

/-- A memory smaller than the address space, so that no address inside it
wraps. -/
structure Memory where
  bytes : Array UInt8
  size_lt : bytes.size < UInt64.size
  deriving DecidableEq

/-! ## Overwriting part of an array -/

/-- The array with `source` in place of what it held from `start` on. What
would fall behind its end is dropped. -/
def overwrite (target : Array UInt8) (start : Nat) : List UInt8 → Array UInt8
  | [] => target
  | byte :: source => overwrite (target.setIfInBounds start byte) (start + 1) source

@[simp] theorem size_overwrite (target : Array UInt8) (start : Nat) (source : List UInt8) :
    (overwrite target start source).size = target.size := by
  induction source generalizing target start with
  | nil => rfl
  | cons byte source ih => rw [overwrite, ih, Array.size_setIfInBounds]

/-- A byte inside both ranges is the source's, any other the target's. -/
theorem getElem?_overwrite (target : Array UInt8) (start : Nat) (source : List UInt8)
    (place : Nat) :
    (overwrite target start source)[place]?
      = if start ≤ place ∧ place < start + source.length ∧ place < target.size then
          source[place - start]?
        else target[place]? := by
  induction source generalizing target start with
  | nil =>
      rw [overwrite, if_neg]
      simp only [List.length_nil]
      omega
  | cons byte source ih =>
      rw [overwrite, ih, Array.size_setIfInBounds, Array.getElem?_setIfInBounds]
      simp only [List.length_cons]
      by_cases first : start = place
      · -- The head lands here, and the tail starts behind it.
        subst first
        rw [if_neg (by omega), if_pos rfl, Nat.sub_self]
        by_cases inside : start < target.size
        · rw [if_pos inside, if_pos (by omega), List.getElem?_cons_zero]
        · rw [if_neg inside, if_neg (by omega), Array.getElem?_eq_none (by omega)]
      · -- Any other place is up to the tail, which starts one further on.
        rw [if_neg first]
        by_cases later : start + 1 ≤ place ∧ place < start + 1 + source.length ∧ place < target.size
        · rw [if_pos later, if_pos (by omega),
            show place - start = place - (start + 1) + 1 by omega, List.getElem?_cons_succ]
        · rw [if_neg later, if_neg (by omega)]

namespace Memory

/-! ## Extent -/

/-- A memory of `size` zero bytes. -/
def zeroed (size : UInt64) : Memory where
  bytes := Array.replicate size.toNat 0
  size_lt := by
    rw [Array.size_replicate]
    exact size.toNat_lt

/-- The memory whose bytes are `image`. There is none if the image is larger
than the address space. -/
def ofImage? (image : Array UInt8) : Option Memory :=
  if fits : image.size < UInt64.size then some ⟨image, fits⟩ else none

/-- The number of bytes. -/
def size (memory : Memory) : Nat :=
  memory.bytes.size

/-- Whether there are no bytes. -/
def isEmpty (memory : Memory) : Bool :=
  memory.size == 0

/-- Refuses a range of bytes that does not lie inside the memory as a whole. An
empty range may start right behind the last byte. -/
def check (memory : Memory) (address : UInt64) (length : Nat) : Except MemoryFault Unit :=
  if address.toNat + length ≤ memory.size then .ok () else .error (.outOfBounds address length)

/-! ## Reading -/

/-- The bytes from `start` on, at most `length` of them. -/
def window (memory : Memory) (start length : Nat) : List UInt8 :=
  (memory.bytes.extract start (start + length)).toList

/-- The number of `width` stored at `address`. -/
def read (memory : Memory) (address : UInt64) (width : Width) : Except MemoryFault UInt64 :=
  match memory.check address width.bytes with
  | .error fault => .error fault
  | .ok () =>
      .ok (UInt64.ofNat (LittleEndian.decode (memory.window address.toNat width.bytes)))

/-- The bytes from `address` to the end of memory. -/
def sliceFrom (memory : Memory) (address : UInt64) : Except MemoryFault (List UInt8) :=
  match memory.check address 0 with
  | .error fault => .error fault
  | .ok () => .ok (memory.bytes.extract address.toNat memory.size).toList

/-! ## Writing -/

/-- Puts `bytes` in place from `address` on. -/
def store (memory : Memory) (address : UInt64) (bytes : List UInt8) : Memory where
  bytes := overwrite memory.bytes address.toNat bytes
  size_lt := by
    rw [size_overwrite]
    exact memory.size_lt

/-- Copies `bytes` into memory from `address` on. -/
def load (address : UInt64) (bytes : List UInt8) : EStateM MemoryFault Memory Unit :=
  fun memory =>
    match memory.check address bytes.length with
    | .error fault => .error fault memory
    | .ok () => .ok () (memory.store address bytes)

/-- Stores the low bytes of `value`, as many as `width` has. -/
def write (address : UInt64) (width : Width) (value : UInt64) :
    EStateM MemoryFault Memory Unit :=
  load address (LittleEndian.encode width.bytes value.toNat)

@[simp] theorem size_store (memory : Memory) (address : UInt64) (bytes : List UInt8) :
    (memory.store address bytes).size = memory.size :=
  size_overwrite _ _ _

/-- After a store, a byte in its range is the one stored there, and every other
byte is as it was. -/
theorem getElem?_store (memory : Memory) (address : UInt64) (bytes : List UInt8) (place : Nat) :
    (memory.store address bytes).bytes[place]?
      = if address.toNat ≤ place ∧ place < address.toNat + bytes.length ∧ place < memory.size then
          bytes[place - address.toNat]?
        else memory.bytes[place]? :=
  getElem?_overwrite _ _ _ _

/-! ## Accesses of one width -/

/-- The byte at `address`. -/
def read8 (memory : Memory) (address : UInt64) : Except MemoryFault UInt8 :=
  (memory.read address .byte).map UInt64.toUInt8

/-- The word at `address`. -/
def read16 (memory : Memory) (address : UInt64) : Except MemoryFault UInt16 :=
  (memory.read address .word).map UInt64.toUInt16

/-- The double at `address`. -/
def read32 (memory : Memory) (address : UInt64) : Except MemoryFault UInt32 :=
  (memory.read address .double).map UInt64.toUInt32

/-- The quad at `address`. -/
def read64 (memory : Memory) (address : UInt64) : Except MemoryFault UInt64 :=
  memory.read address .quad

/-- Stores a byte at `address`. -/
def write8 (address : UInt64) (value : UInt8) : EStateM MemoryFault Memory Unit :=
  write address .byte value.toUInt64

/-- Stores a word at `address`. -/
def write16 (address : UInt64) (value : UInt16) : EStateM MemoryFault Memory Unit :=
  write address .word value.toUInt64

/-- Stores a double at `address`. -/
def write32 (address : UInt64) (value : UInt32) : EStateM MemoryFault Memory Unit :=
  write address .double value.toUInt64

/-- Stores a quad at `address`. -/
def write64 (address : UInt64) (value : UInt64) : EStateM MemoryFault Memory Unit :=
  write address .quad value

end Memory

end RegisterVM
