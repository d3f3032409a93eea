import RegisterVM.Machine.Display
import RegisterVM.Machine.Run

/-!
# Demonstration

A program that adds up two quads in memory, keeps a copy of the first sum and
pushes it. The transcript lists the program, runs it and shows the machine
afterwards, and after every instruction if tracing is asked for. A fault ends
the demonstration, and what was written before it stands.
-/

namespace RegisterVM.Demo

/-- The size of the machine's memory. -/
def memorySize : UInt64 := 0x1000

/-- Where the stack starts, growing down. -/
def stackTop : UInt64 := 0x1000

/-- Where the two quads stand. -/
def dataAddress : UInt64 := 0x800

/-- A generic 64-bit instruction whose first operand is direct. -/
def generic (opcode : Opcode) (register1 register2 : Register) (indirect : Bool)
    (immediate : Option UInt32) : Instruction where
  opcode := opcode
  operand1 := ⟨register1, false⟩
  operand2 := ⟨register2, indirect⟩
  arguments := .generic true immediate

/-- The program: the quad at the data address, plus the one a natural unit
further on, goes to `r1`, and from there through `r3` to the stack. -/
def program : List Instruction :=
  [{ opcode := .move .qq
     operand1 := ⟨.r1, false⟩
     operand2 := ⟨.r2, true⟩
     arguments := .move .quad .quad none none },
    generic (.binary .add) .r1 .r2 true (some 0x1001),
    generic (.binary .add) .r3 .r1 false none,
    generic .push .r3 .r0 false none,
    generic .ret .r0 .r0 false none]

/-- The two quads. -/
def data : List UInt8 :=
  LittleEndian.encode 8 40 ++ LittleEndian.encode 8 2

/-! ## A session -/

/-- What is behind in a demonstration: the machine as it has become, and the lines written. -/
structure Session where
  machine : Machine
  lines : List (List Char)

/-- Writes a line. -/
def say (line : List Char) : EStateM MachineFault Session Unit :=
  modify fun session => { session with lines := session.lines ++ [line] }

/-- Does something to the machine. -/
def operate (operation : EStateM MachineFault Machine Unit) : EStateM MachineFault Session Unit :=
  fun session =>
    match operation session.machine with
    | .error fault machine => .error fault { session with machine }
    | .ok () machine => .ok () { session with machine }

/-- Bytes as two digits each, in brackets. -/
def bytesText (bytes : List UInt8) : List Char :=
  '[' :: [',', ' '].intercalate (bytes.map fun byte => Numeral.hexField 2 byte.toNat) ++ [']']

/-- The line that lists an instruction: its address, its bytes and its text. -/
def listingLine (address : UInt64) (instruction : Instruction) : List Char :=
  Numeral.hexPadded 4 address.toNat ++ ' ' :: ' '
    :: (bytesText instruction.encode).rightpad 24 ' ' ++ instruction.text

/-- Lists a program from `address` on, and loads each instruction once it is listed. -/
def install (address : UInt64) : List Instruction → EStateM MachineFault Session Unit
  | [] => pure ()
  | instruction :: program => do
      say (listingLine address instruction)
      operate (Machine.load address instruction.encode)
      install (address + UInt64.ofNat instruction.encode.length) program

/-- The displays of the machine after each cycle that succeeds, up to a `RET` or a fault. -/
def snapshots (machine : Machine) : List (List Char) :=
  match _stepped : machine.step with
  | ⟨_, .ok .continue, after⟩ => after.text :: snapshots after
  | ⟨_, .ok .halt, after⟩ => [after.text]
  | ⟨_, .error _, _⟩ => []
termination_by machine.remaining
decreasing_by exact Machine.remaining_step_lt _stepped

/-- Runs the machine. It is displayed at the end also if the run fails. -/
def perform (trace : Bool) : EStateM MachineFault Session Unit := do
  let machine := (← get).machine
  let report := machine.run none
  if trace then
    (snapshots machine).forM say
  operate fun _ => .ok () report.machine
  match report.answer with
  | .ok executed =>
      say ("Executed ".toList ++ Numeral.decimal executed ++ " instructions.".toList)
      say report.machine.text
  | .error fault =>
      say report.machine.text
      throw fault

/-- The demonstration from its banner to its last display. With `trace`, the machine is displayed
after every instruction. -/
def demonstrate (trace : Bool) : EStateM MachineFault Session Unit := do
  if trace then
    say "Computation Tracing ENABLED".toList
  install 0 program
  operate (Machine.load dataAddress data)
  operate (modify fun machine => (machine.setRegister .r0 stackTop).setRegister .r2 dataAddress)
  perform trace

/-! ## What is written -/

/-- A demonstration that a fault ends: what was written before, and the fault. -/
structure Spoiled where
  output : List Char
  fault : MachineFault

/-- The lines of the session, each ended by a line feed. -/
def Session.output (session : Session) : List Char :=
  session.lines.flatMap (· ++ ['\n'])

/-- What the demonstration writes, also up to the fault if one spoils it. -/
def transcript (trace : Bool) : Except Spoiled (List Char) :=
  match demonstrate trace ⟨.ofMemory (.zeroed memorySize), []⟩ with
  | .ok () session => .ok session.output
  | .error fault session => .error ⟨session.output, fault⟩

/-- What is written of the fault that spoils a demonstration. -/
def complaint (spoiled : Spoiled) : List Char :=
  "Error: ".toList ++ spoiled.fault.message ++ ['\n']

end RegisterVM.Demo
