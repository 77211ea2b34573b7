import AvrSim.Cli.Outcome

/-!
# The simulator program

Runs a firmware on a simulated core and prints each byte it sends. Everything reported goes to the error
output, and the reason why nothing could be run after it.
-/

namespace AvrSim.Cli.Simulate

/-- The flags of the program. -/
def specs : List FlagSpec :=
  [{ name := "mcu", kind := .text }, { name := "freq", kind := .unsigned },
    { name := "log-level", kind := .text }, { name := "gdb", kind := .truth },
    { name := "gdb-addr", kind := .text }, { name := "stdin", kind := .truth }]

/-- How the program is used. -/
def usage : String := "goavr [flags] firmware.hex"

/-- What stands before each complaint. -/
def mark : String := "goavr: "

/-- A command line that was understood. -/
structure Request where
  config : Config
  forwardsInput : Bool
  path : String
  deriving DecidableEq, Repr

/-- Reads a command line. -/
def parse (arguments : List String) : Except FlagError Request := do
  let flags ← Flags.parse specs arguments
  let default : Config := {}
  let config : Config := {
    mcu := flags.text "mcu" default.mcu
    frequency := UInt32.ofNat (flags.unsigned "freq" default.frequency.toNat)
    logLevel := flags.text "log-level" default.logLevel
    gdb := flags.truth "gdb"
    gdbAddress := flags.text "gdb-addr" default.gdbAddress }
  match flags.arguments with
  | [path] => return { config, forwardsInput := flags.truth "stdin", path }
  | arguments => .error (.argumentCount "1" arguments.length)

/-- The names of all parts. -/
def knownModels : String := ", ".intercalate (Model.all.map (·.name))

/-- The complaint about a machine that could not be made. -/
def creationMessage (e : Machine.CreationError) : String :=
  match e with
  | .unknownModel _ => "Error making core: " ++ e.message ++ " (known models: " ++ knownModels ++ ")"
  | .wiring _ => e.message

/-- The complaint about an operation that failed. -/
def failureMessage (e : HarnessError) : String :=
  match e with
  | .load _ => "Error loading " ++ e.message
  | _ => e.message

/-- Everything that was reported, a line for each. -/
def reported (h : Harness) : Bytes :=
  h.machine.journal.lines.flatMap fun line => Bytes.ofString (line ++ "\n")

/-- The outcome of a run as far as it came. -/
def outcome (env : Environment) (path : String) (h : Harness) (failure : Option HarnessError) :
    Outcome :=
  { code := if failure.isSome then 1 else 0
    output := "Loading " ++ path ++ "\n" ++ h.takeOutput.1
    errors := reported h ++
      ((failure.map fun e => Bytes.ofString (mark ++ failureMessage e ++ "\n")).getD [])
    files := env.files
    client := h.client }

/-- Notes that the input is read as it is. -/
def noteInput (h : Harness) (forwardsInput : Bool) : Harness :=
  if forwardsInput then
    { h with bench := h.bench.act (·.log .debug "stdin left in cooked mode"
      [("err", .ofString "inappropriate ioctl for device")]) }
  else h

/-- Notes how the run ended. -/
def noteResult (h : Harness) (result : Result) : Harness :=
  { h with bench := h.bench.act (·.log .info "finished"
    [("reason", .ofString result.reason.name), ("state", .ofString result.state.name),
      ("cycles", .number result.cycles.toNat)]) }

/-- Waits for a debugger if one is wanted. -/
def attach (request : Request) (env : Environment) (h : Harness) :
    Except HarnessError Unit × Harness :=
  if request.config.gdb then h.attachDebugger env.visitor env.address else (.ok (), h)

/-- Runs a firmware that was loaded. -/
def runLoaded (limit : Nat) (request : Request) (env : Environment) (h : Harness) :
    Option HarnessError × Harness :=
  match (noteInput h request.forwardsInput).wire with
  | (.error e, h) => (some e, h)
  | (.ok (), h) =>
    match attach request env h with
    | (.error e, h) => (some e, h)
    | (.ok (), h) =>
      match h.run limit with
      | (.error e, h) => (some e, h)
      | (.ok none, h) => (none, h)
      | (.ok (some result), h) => (none, noteResult h result)

/-- Serves a request, with at most so many turns of the run. -/
def serve (limit : Nat) (request : Request) (env : Environment) : Outcome :=
  let refused (message : String) : Outcome :=
    { code := 1, errors := Bytes.ofString (mark ++ message ++ "\n"), files := env.files }
  match Level.parse? request.config.logLevel with
  | none => refused (Level.unknownMessage request.config.logLevel)
  | some level =>
    let input := if request.forwardsInput then some (env.input.map Poll.byte) else none
    match Harness.create request.config input ⟨some level, #[]⟩ with
    | .error e => refused (creationMessage e)
    | .ok h =>
      match h.load env.files request.path with
      | .error e => outcome env request.path h (some e)
      | .ok (_, h) =>
        let (failure, h) := runLoaded limit request env h
        outcome env request.path h.hangUp failure

/-- The program. -/
def program (limit : Nat) (arguments : List String) (env : Environment) : Outcome :=
  match parse arguments with
  | .error e => { code := 1, errors := usageErrors mark usage e, files := env.files }
  | .ok request => serve limit request env

end AvrSim.Cli.Simulate
