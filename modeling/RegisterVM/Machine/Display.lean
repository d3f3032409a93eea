import RegisterVM.Instruction.Basic
import RegisterVM.Machine.Basic
import RegisterVM.Text.Table

/-!
# The display of a machine

The state of a machine as a text: a line with the instruction pointer and the
size of memory, and then a table of the registers beside a table of the top of
the stack.
-/

namespace RegisterVM.Machine

/-- The slots of the stack that a display shows, by their place above the stack
pointer. -/
def stackSlots : List UInt64 :=
  [0, 1, 2, 3]

/-- The quads at and above the stack pointer, each with its address. Slots that
do not lie inside memory are left out. -/
def stackWindow (machine : Machine) : List (UInt64 × UInt64) :=
  stackSlots.filterMap fun slot =>
    let address := machine.register .r0 + 8 * slot
    match machine.memory.read64 address with
    | .error _ => none
    | .ok value => some (address, value)

/-- A quad with all of its sixteen digits. -/
def quadText (value : UInt64) : List Char :=
  Numeral.hexPadded 16 value.toNat

/-- The row of a table of values: a label, and what stands there. -/
def valueRow (label contents : List Char) : Row where
  first := .line .right (label ++ [' ', '='])
  second := .line .left contents

/-- The titles of a table of values. -/
def valueTitles : Row where
  first := .line .right "Address".toList
  second := .line .left "Contents".toList

/-- The table of the registers, in which the stack pointer is marked. -/
def registerTable (machine : Machine) : Table where
  titles := valueTitles
  rows := Register.all.map fun register =>
    let marker := if register = .r0 then "* --> ".toList else []
    valueRow (marker ++ register.text) (quadText (machine.register register))

/-- The table of the stack. Its rows are numbered by their place in the table,
so that a slot left out leaves no gap. -/
def stackTable (machine : Machine) : Table where
  titles := valueTitles
  rows := machine.stackWindow.mapIdx fun place (address, value) =>
    valueRow ("SP+".toList ++ Numeral.decimal place)
      ('[' :: Numeral.hex address.toNat ++ ']' :: ' ' :: quadText value)

/-- The registers and the stack side by side. -/
def stateTable (machine : Machine) : Table where
  titles := ⟨.line .left "Registers".toList, .line .left "Stack".toList⟩
  rows := [⟨⟨.left, machine.registerTable.lines⟩, ⟨.left, machine.stackTable.lines⟩⟩]

/-- The first line of a display. -/
def headline (machine : Machine) : List Char :=
  "IP: ".toList ++ Numeral.hex machine.ip.toNat ++ '\t' :: "Memory: ".toList
    ++ Numeral.decimal machine.memory.size ++ " bytes".toList

/-- The display of the machine, each of its lines ended by a line feed. -/
def text (machine : Machine) : List Char :=
  (machine.headline :: machine.stateTable.lines).flatMap (· ++ ['\n'])

end Machine

instance : ToString Machine where
  toString machine := String.ofList machine.text

end RegisterVM
