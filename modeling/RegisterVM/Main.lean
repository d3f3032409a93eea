import RegisterVM.Demo

/-!
# Command line

Runs the demonstration and writes its transcript to standard output.
-/

namespace RegisterVM

/-- Whether the demonstration shows the machine after every instruction. -/
def traceComputation : Bool := false

end RegisterVM

def main : IO UInt32 := do
  match RegisterVM.Demo.transcript RegisterVM.traceComputation with
  | .ok transcript =>
      IO.print (String.ofList transcript)
      return 0
  | .error spoiled =>
      IO.print (String.ofList spoiled.output)
      IO.eprint (String.ofList (RegisterVM.Demo.complaint spoiled))
      return 1
