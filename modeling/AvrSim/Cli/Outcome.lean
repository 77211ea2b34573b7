import AvrSim.Cli.Flags
import AvrSim.Harness.Run

/-!
# Programs

What a program can see and what it leaves behind. A program is a function from its arguments and an
environment to an outcome.
-/

namespace AvrSim.Cli

/-- What a program can see: files, its input, who comes to debug, and the address where that happens. -/
structure Environment where
  files : Files := {}
  input : Bytes := []
  visitor : Visitor := .nobody
  address : String := ""

/-- What a program leaves behind: an exit code, what it wrote, the files as they are then, and what the
debugger client heard. -/
structure Outcome where
  code : Nat := 0
  output : String := ""
  errors : Bytes := []
  files : Files := {}
  client : Option Client := none

/-- The end of a refused command line: the reason and how the program is used. -/
def usageErrors (mark usage : String) (e : FlagError) : Bytes :=
  Bytes.ofString mark ++ e.message ++ Bytes.ofString ("\n" ++ mark ++ usage ++ "\n")

end AvrSim.Cli
