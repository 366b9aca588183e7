import DemandFlow.Demo

/-
  The program: runs the demonstration with the arguments of the command line.
-/

namespace DemandFlow

/-- Print an outcome and give its exit code. -/
def report (o : Demo.Outcome) : IO UInt32 := do
  for line in o.output do
    IO.println line
  if let some c := o.complaint then
    IO.eprintln c
  return UInt32.ofNat o.exit

end DemandFlow

def main (args : List String) : IO UInt32 := DemandFlow.report (DemandFlow.Demo.run args)
