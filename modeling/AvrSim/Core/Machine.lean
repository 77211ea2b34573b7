import AvrSim.Core.Model
import AvrSim.Core.Registers
import AvrSim.Core.RunState
import AvrSim.Journal
import AvrSim.Text.Digits
import AvrSim.Wiring.Raise

/-!
# The machine

A core is a processor with its memories and its UART; a machine is a core with the wiring that its UART
lines belong to. The core keeps the entries it reports in a journal and notes what its observers saw.

* `Machine.create` and `Machine.reset` give the state after power-up.
* `Machine.raise` raises a line; observers hand bytes to the UART, take notes and may halt the core.
* `Machine.loadFlash` stores a program.
-/

namespace AvrSim

/-! ## Parts of a core -/

/-- What a note on a line is about: one of the four lines of the UART, or a line fed by its output. -/
inductive LineTag
  | input
  | output
  | xon
  | xoff
  | sink
  deriving DecidableEq, Repr

/-- Who hears of a raise: the receiving side of the UART, or a recorder, which takes a note and halts
the core if the value is the one it waits for. -/
inductive Observer
  | receive
  | record (tag : LineTag) (haltOn : Option UInt32)
  deriving DecidableEq, Repr

/-- What was noted. Reads and writes of the data space, with the byte that stands there afterwards, are
noted only while an instrument is connected. -/
inductive Note
  | line (tag : LineTag) (value : UInt32)
  | read (address : UInt16) (value : UInt8)
  | write (address : UInt16) (value : UInt8)
  | step (state : RunState)
  deriving DecidableEq, Repr

/-- The state of a UART: the bytes received and not yet read, oldest first, whether a transmission was
completed, and whether the sender was told to stop. -/
structure Uart where
  pending : List UInt8 := []
  transmitted : Bool := false
  xoff : Bool := false
  deriving DecidableEq, Repr

/-- The most bytes a UART holds. -/
def Uart.capacity : Nat := 64

/-- A processor with its memories and its UART. `program` is a byte address. Running past `codeEnd`
crashes. After an instruction that sets `interruptDelay` another one runs before an interrupt is taken.
`firstLine` is the position of the first of the four UART lines. -/
structure Core where
  model : Model
  data : Memory
  flash : Memory
  program : UInt32 := 0
  cycle : UInt64 := 0
  run : RunState := .running
  frequency : UInt32 := 0
  codeEnd : UInt32
  interruptDelay : Bool := false
  uart : Uart := {}
  firstLine : Nat := 0
  probed : Bool := false
  notes : Array Note := #[]
  journal : Journal

/-- A core and the wiring of its lines. -/
structure Machine extends Core where
  wiring : Wiring Observer

/-- An image that does not fit into the flash. -/
structure FlashOverflow where
  length : Nat
  base : Nat
  size : Nat
  deriving DecidableEq, Repr

/-- The wording of an overflow. -/
def FlashOverflow.message (o : FlashOverflow) : String :=
  "image does not fit in flash: " ++ toString o.length ++ " bytes at " ++
    Text.hexMarked 1 o.base ++ ", flash is " ++ toString o.size ++ " bytes"

namespace Core

/-! ## Reporting -/

/-- Reports an entry under the name of the part. -/
def report (core : Core) (level : Level) (message : String) (values : List (String × Value)) :
    Core :=
  { core with journal :=
    core.journal.add ⟨level, message, ("mcu", .ofString core.model.name) :: values⟩ }

/-- An address as entries show it. -/
def shownAddress (width address : Nat) : Value := .ofString (Text.hexMarked width address)

/-- The program counter as entries show it. -/
def shownProgram (core : Core) : String × Value := ("pc", shownAddress 5 core.program.toNat)

/-- Ends the run with a crash. -/
def crash (core : Core) (message name : String) (value : Value) : Core :=
  { core.report .error message [(name, value), core.shownProgram] with run := .crashed }

/-- Ends the run in good order, unless it has ended. -/
def halt (core : Core) : Core :=
  if core.run.isTerminal then core
  else { core.report .info "halted" [core.shownProgram] with run := .done }

/-- Takes a note. -/
def note (core : Core) (n : Note) : Core := { core with notes := core.notes.push n }

/-- Takes a note of a memory access if anyone would look at it. -/
def noteAccess (core : Core) (n : Note) : Core := if core.probed then core.note n else core

/-! ## Observers -/

/-- The name of the UART as entries show it. -/
def uartName (core : Core) : String × Value := ("uart", .text [core.model.uart.name])

/-- The UART takes a byte unless it is full. The byte that fills it tells the sender to stop. -/
def receive (core : Core) (b : UInt8) : Core × Option (Nat × UInt32) :=
  if core.uart.pending.length < Uart.capacity then
    let pending := core.uart.pending ++ [b]
    if pending.length = Uart.capacity && !core.uart.xoff then
      ({ core with uart := { core.uart with pending, xoff := true } }, some (core.firstLine + 3, 1))
    else ({ core with uart := { core.uart with pending } }, none)
  else (core.report .warn "uart receive buffer full, byte dropped" [core.uartName], none)

/-- What the observers of lines do to a core. -/
def react : Reaction Observer Core := fun observer _ _ value core =>
  match observer with
  | .receive => core.receive value.toUInt8
  | .record tag haltOn =>
    let core := core.note (.line tag value)
    (if haltOn == some value then core.halt else core, none)

end Core

namespace Machine

/-- Changes the core and leaves the wiring alone. -/
@[inline] def onCore (f : Core → Core) : Machine → Machine
  | ⟨core, wiring⟩ => ⟨f core, wiring⟩

/-- Reports an entry that is not about the core itself. -/
def log (m : Machine) (level : Level) (message : String) (values : List (String × Value)) :
    Machine :=
  m.onCore fun core => { core with journal := core.journal.add ⟨level, message, values⟩ }

/-! ## Lines -/

/-- The positions of the UART lines. -/
def lineOf (m : Machine) : LineTag → Nat
  | .input => m.firstLine
  | .output => m.firstLine + 1
  | .xon => m.firstLine + 2
  | .xoff => m.firstLine + 3
  | .sink => m.firstLine + 4

/-- Raises a line and lets its observers act. -/
def raise (m : Machine) (line : Nat) (value : UInt32) : Machine :=
  match m with
  | ⟨core, wiring⟩ =>
    let (wiring, core) := wiring.raise Core.react line value core
    ⟨core, wiring⟩

/-- The lines and observers of a machine all belong to this pool. -/
def pool : Nat := 0

/-- The names of the four UART lines. -/
def lineNames (uart : UartConfig) : List String :=
  let n := (Char.ofNat uart.name.toNat).toString
  ["8<uart" ++ n ++ ".in", "8>uart" ++ n ++ ".out", ">uart" ++ n ++ ".xon",
    ">uart" ++ n ++ ".xoff"]

/-- The number that asks for the lines of a UART. -/
def uartControl (name : UInt8) : UInt32 :=
  UInt32.ofNat (((('u'.toNat * 256 + 'a'.toNat) * 256) + 'r'.toNat) * 256 + name.toNat)

/-- A request for a line that does not exist. -/
inductive PeripheralError
  | control (code : UInt32)
  | line (uart : UInt8) (index : Int)
  deriving DecidableEq, Repr

/-- The wording of such a request's refusal. -/
def PeripheralError.message : PeripheralError → String
  | .control code => "no such peripheral: ioctl " ++ Text.hexMarked 8 code.toNat
  | .line uart index =>
    "no such peripheral: uart" ++ (Char.ofNat uart.toNat).toString ++ " irq " ++ toString index

/-- The position of a line of a peripheral. -/
def line? (m : Machine) (control : UInt32) (index : Int) : Except PeripheralError Nat :=
  let uart := m.model.uart
  if control ≠ uartControl uart.name then .error (.control control)
  else if 0 ≤ index ∧ index < 4 then .ok (m.firstLine + index.toNat)
  else .error (.line uart.name index)

/-! ## Power-up -/

/-- The UART registers by their distance from its base. -/
def ucsra : Nat := 0
def ucsrb : Nat := 1
def ucsrc : Nat := 2
def ubrrl : Nat := 4
def ubrrh : Nat := 5
def udr : Nat := 6

/-- The address of a UART register. -/
def uartAddress (m : Machine) (offset : Nat) : Nat := m.model.uart.base.toNat + offset

/-- The data space after power-up: zeros, the stack pointer at the end, the UART ready to send. -/
def initialData (model : Model) : Memory :=
  let base := model.uart.base.toNat
  (((Memory.zeros model.dataSize).setSp model.ramEnd).set (base + ucsra) 0x20).set
    (base + ucsrc) 0x06

/-- Back to the state after power-up. Flash, wiring and journal stay. -/
def reset (m : Machine) : Machine :=
  { m with
    data := initialData m.model
    program := 0
    cycle := 0
    run := .running
    interruptDelay := false
    uart := {} }

/-- A new machine, with its lines added to a wiring. -/
def create (model : Model) (wiring : Wiring Observer) (journal : Journal) :
    Except WiringError Machine := do
  let firstLine := wiring.lines.size
  let wiring := wiring.alloc pool 0 4 (lineNames model.uart)
  let wiring ← wiring.subscribe pool firstLine .receive
  return {
    model
    data := initialData model
    flash := Memory.zeros model.flashSize
    codeEnd := model.flashEnd
    firstLine
    journal
    wiring }

/-- Why a machine could not be made. -/
inductive CreationError
  | unknownModel (name : String)
  | wiring (error : WiringError)
  deriving DecidableEq, Repr

/-- The wording of such a failure. -/
def CreationError.message : CreationError → String
  | .unknownModel name =>
    "unknown microcontroller model " ++ Text.quoted (Bytes.ofString name)
  | .wiring error => error.message

/-- A new machine of the part with a given name. -/
def createNamed (name : String) (wiring : Wiring Observer) (journal : Journal) :
    Except CreationError Machine :=
  match Model.find? name with
  | none => .error (.unknownModel name)
  | some model => (create model wiring journal).mapError .wiring

/-- Stores a program in the flash. -/
def loadFlash (m : Machine) (base : Nat) (bytes : List UInt8) : Except FlashOverflow Machine :=
  if m.flash.size < base + bytes.length then .error ⟨bytes.length, base, m.flash.size⟩
  else .ok { m with flash := m.flash.store base bytes }

end Machine

end AvrSim
