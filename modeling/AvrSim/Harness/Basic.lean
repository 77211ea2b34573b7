import AvrSim.Harness.Address
import AvrSim.Harness.Client
import AvrSim.Harness.Load
import AvrSim.Harness.Phase

/-!
# The harness

A harness takes a machine through a run: it loads a firmware, wires the UART to an output and, if there
is one, to a source of bytes, lets a debugger attach, and runs the core to its end. Each byte that the
firmware sends is written as a line, except for `sentinel`, which ends the run.

* `Harness.create`, `load`, `wire` and `attachDebugger` are the operations up to the run.
* `HarnessError` says what can go wrong in them; an operation in the wrong phase changes nothing.
-/

namespace AvrSim

/-- What a source of bytes answers when it is asked for one. -/
inductive Poll
  | byte (b : UInt8)
  | nothing
  | failed
  | closed
  deriving DecidableEq, Repr

/-- Who comes to the address that a debugger listens on: a client with a script, somebody who is turned
away, or nobody. Only for nobody the address matters. -/
inductive Visitor
  | nobody
  | turnedAway
  | client (script : List Bytes)
  deriving Repr

/-- The operations of a harness. -/
inductive Operation
  | load
  | wire
  | attachDebugger
  | run
  deriving DecidableEq, Repr

/-- The name of an operation in messages. -/
def Operation.name : Operation → String
  | load => "load"
  | wire => "wire"
  | attachDebugger => "attach debugger"
  | run => "run"

/-- The phases in which an operation is possible. -/
def Operation.phases : Operation → List Phase
  | load => [.initializing]
  | wire => [.ready]
  | attachDebugger => [.wired]
  | run => [.wired, .waitingForDebugger]

/-- Why an operation failed. -/
inductive HarnessError
  | outOfOrder (operation : Operation) (phase : Phase)
  | load (error : LoadError)
  | wiring (error : WiringError)
  | listen (address : String) (fault : Address.Fault)
  | refused
  | input
  deriving DecidableEq, Repr

/-- The wording of a failure. -/
def HarnessError.message : HarnessError → String
  | outOfOrder operation phase =>
    "harness: operation out of order: " ++ operation.name ++ " while " ++ phase.name
  | load error => error.message
  | wiring error => error.message
  | listen address fault => "gdb listen on " ++ address ++ ": listen tcp: " ++ fault.message
  | refused => "gdb accept: refused"
  | input => "reading input: input failed"

/-- A harness. `source` is the line that the bytes of `input` are raised on, as long as the source is
open; `paused` means that the UART told the sender to stop. `reads` counts how often the source was
asked and `steps` the steps of the run. -/
structure Harness where
  config : Config
  bench : Bench
  phase : Phase := .initializing
  input : Option (List Poll) := none
  source : Option Nat := none
  reads : Nat := 0
  steps : Nat := 0
  paused : Bool := false
  terminated : Bool := false
  output : Array UInt32 := #[]
  client : Option Client := none

namespace Harness

/-- The byte that ends a run. -/
def sentinel : UInt32 := 4

/-- A source is asked for a byte once in this many steps. -/
def pollInterval : Nat := 1024

/-- The machine of a harness. -/
def machine (h : Harness) : Machine := h.bench.machine

/-- A new harness with the machine that the configuration asks for. -/
def create (config : Config) (input : Option (List Poll)) (journal : Journal) :
    Except Machine.CreationError Harness := do
  let m ← Machine.createNamed config.mcu {} journal
  let m := { m with frequency := config.frequency }
  let m := m.log .info "core created"
    [("mcu", .ofString m.model.name), ("freq", .number config.frequency.toNat)]
  return { config, bench := { machine := m }, input }

/-- An operation is possible in certain phases only. -/
def expect (h : Harness) (operation : Operation) : Except HarnessError Unit :=
  if operation.phases.contains h.phase then .ok () else .error (.outOfOrder operation h.phase)

/-! ## Loading -/

/-- Stores an image in the flash and points the core at it. -/
def install (m : Machine) (path : String) (image : Hex.Image) : Except LoadError Machine :=
  match m.loadFlash image.base.toNat image.data.toList with
  | .error overflow => .error ⟨path, 0, .flash overflow⟩
  | .ok m =>
    let m := { m with program := image.base, codeEnd := m.model.flashEnd }
    .ok (m.log .info "firmware loaded"
      [("path", .ofString path), ("base", Core.shownAddress 5 image.base.toNat),
        ("size", .number image.size.toNat)])

/-- Loads a firmware. -/
def load (h : Harness) (files : Files) (path : String) :
    Except HarnessError (Hex.Image × Harness) := do
  h.expect .load
  let image ← (Hex.Image.load files path h.machine.model.flashSize).mapError .load
  let m ← (install h.machine path image).mapError .load
  return (image, { h with bench := { h.bench with machine := m }, phase := .ready })

/-! ## Wiring -/

/-- The names of the lines of a harness: where it takes the output of the UART, and where it puts the
bytes of the source. -/
def lineNames (hasInput : Bool) : List String :=
  "8<uart_in" :: if hasInput then ["8>uart_out"] else []

/-- Wires the source of bytes to the UART and listens to its flow control. -/
def wireSource (m : Machine) (source : Nat) (w : Wiring Observer) :
    Except WiringError (Wiring Observer) := do
  let w ← w.connect Machine.pool source (m.lineOf .input)
  let w ← w.subscribe Machine.pool (m.lineOf .xon) (.record .xon none)
  w.subscribe Machine.pool (m.lineOf .xoff) (.record .xoff none)

/-- Wires new lines that begin at `first` to the UART. -/
def wireFrom (m : Machine) (first : Nat) (hasInput : Bool) (w : Wiring Observer) :
    Except WiringError (Wiring Observer) := do
  let w ← w.subscribe Machine.pool first (.record .sink (some sentinel))
  let w ← w.connect Machine.pool (m.lineOf .output) first
  let w ← if hasInput then wireSource m (first + 1) w else .ok w
  return w.freeze Machine.pool

/-- Wires the UART. After that the wiring is frozen. If it was frozen before, the new lines are there
but not connected. -/
def wire (h : Harness) : Except HarnessError Unit × Harness :=
  match h.expect .wire with
  | .error e => (.error e, h)
  | .ok () =>
    let m := h.machine
    let hasInput := h.input.isSome
    let names := lineNames hasInput
    let first := m.wiring.lines.size
    let w := m.wiring.alloc Machine.pool 0 names.length names
    let withWiring (w : Wiring Observer) : Bench :=
      { h.bench with machine := { m with wiring := w } }
    match wireFrom m first hasInput w with
    | .error e => (.error (.wiring e), { h with bench := withWiring w })
    | .ok w =>
      (.ok (), { h with
        bench := withWiring w
        phase := .wired
        source := if hasInput then some (first + 1) else none })

/-! ## Attaching a debugger -/

/-- Lets the client of a harness talk while the session is held. -/
def converse (h : Harness) : Harness :=
  match h.client with
  | none => h
  | some c =>
    let (bench, c) := c.converse h.bench
    { h with bench, client := some c }

/-- Waits for a debugger client. -/
def attachDebugger (h : Harness) (visitor : Visitor) (address : String) :
    Except HarnessError Unit × Harness :=
  match h.expect .attachDebugger with
  | .error e => (.error e, h)
  | .ok () =>
    let waiting := { h with phase := .waitingForDebugger }
    match visitor with
    | .client script =>
      (.ok (), { waiting with
        bench := h.bench.attach {} address, client := some { script } }.converse)
    | .turnedAway => (.error .refused, { waiting with bench := h.bench.refuse {} address })
    | .nobody =>
      match Address.check h.config.gdbAddress with
      | .error fault => (.error (.listen h.config.gdbAddress fault), h)
      | .ok () => (.error .refused, { waiting with bench := h.bench.refuse {} address })

end Harness

end AvrSim
