import AvrSim.Cli.Assemble
import AvrSim.Cli.Simulate

/-!
# The executable

The first argument selects the program: `asm` assembles, anything else is the command line of the
simulator. Files that the arguments name are read beforehand, and files that a program leaves behind are
written afterwards. Nobody can connect to the debugger from here.
-/

namespace AvrSim

/-- The file at a path, if there is one. -/
def fileAt (path : String) : IO (List (String × Bytes)) := do
  try
    let content ← IO.FS.readBinFile path
    return [(path, content.toList)]
  catch _ => return []

/-- Whether a path can be opened. -/
def canOpen (path : String) : IO Bool := do
  try
    discard (IO.FS.Handle.mk path .read)
    return true
  catch _ => return false

/-- Whether there is a directory at a path: it can be opened but has no content. -/
def hasDirectory (path : String) : IO Bool := do
  return (← canOpen path) && (← fileAt path).isEmpty

/-- A path cut off after each of its parts. -/
def stages (path : String) : List String :=
  let parts := Files.parts path
  (List.range parts.length).map fun i => "/".intercalate (parts.take (i + 1))

/-- The files at some paths and the directories on the way. -/
def survey (paths : List String) : IO Files := do
  let entries ← paths.mapM fileAt
  let directories ← ((paths.flatMap stages).filter (· ≠ "")).filterM hasDirectory
  return { entries := entries.flatten, directories }

/-- Everything on the input. -/
def readInput : IO Bytes := do
  let content ← (← IO.getStdin).readBinToEnd
  return content.toList

/-- Turns of a run, more than anyone waits for. -/
def unlimited : Nat := 1 <<< 62

/-- Shows an outcome and stores the files that are new in it. -/
def conclude (before : Files) (outcome : Cli.Outcome) : IO UInt32 := do
  for (path, content) in before.changes outcome.files do
    IO.FS.writeBinFile path ⟨content.toArray⟩
  IO.print outcome.output
  IO.eprint outcome.errors.toText
  return UInt32.ofNat outcome.code

/-- Runs the assembler. -/
def assembler (arguments : List String) : IO UInt32 := do
  let request := (Cli.Assemble.parse arguments).toOption
  let paths := request.toList.flatMap fun r => r.path.toList ++ [r.outputPath]
  let files ← survey paths
  let input ← if request.any (·.path.isNone) then readInput else pure []
  conclude files (Cli.Assemble.program arguments { files, input })

/-- Runs the simulator. -/
def simulator (arguments : List String) : IO UInt32 := do
  let request := (Cli.Simulate.parse arguments).toOption
  let files ← survey (request.toList.map (·.path))
  let input ← if request.any (·.forwardsInput) then readInput else pure []
  conclude files (Cli.Simulate.program unlimited arguments { files, input })

end AvrSim

/-- The entry point. -/
def main (arguments : List String) : IO UInt32 :=
  match arguments with
  | "asm" :: rest => AvrSim.assembler rest
  | arguments => AvrSim.simulator arguments
