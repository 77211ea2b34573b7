import AvrSim.Core.Machine

/-!
# Access to the data space

The processor's reads and writes. Addresses past the end of the data space crash the core; the
addresses of the UART registers are its own, and reading or writing them has effects.

* `Machine.read` and `Machine.write` are the accesses of instructions and of interrupt entry.
* `Machine.push` and `Machine.pop` are the stack, which grows downwards.
-/

namespace AvrSim.Machine

/-! ## The UART registers -/

/-- The bits of the status register: byte received, transmission complete, ready to send. -/
def rxc : UInt8 := 0x80
def txc : UInt8 := 0x40
def udre : UInt8 := 0x20

/-- The bits of the control register: the three interrupt enables and the transmitter enable. -/
def rxcie : UInt8 := 0x80
def txcie : UInt8 := 0x40
def udrie : UInt8 := 0x20
def txen : UInt8 := 0x08

/-- The status register as a read shows it: it is always ready to send, the two other status bits follow
the state, and the remaining bits are those last written. -/
def uartStatus (m : Machine) : UInt8 :=
  let kept := (m.data.get (m.uartAddress ucsra) &&& ~~~(rxc ||| txc)) ||| udre
  let kept := if m.uart.pending.isEmpty then kept else kept ||| rxc
  if m.uart.transmitted then kept ||| txc else kept

/-- Makes the status register in the data space show the state. -/
def refreshStatus (m : Machine) : Machine :=
  { m with data := m.data.set (m.uartAddress ucsra) m.uartStatus }

/-- Takes the oldest byte. A queue that was full tells the sender to go on. -/
def receivedByte (m : Machine) : UInt8 × Machine :=
  match m.uart.pending with
  | [] =>
    (0, m.onCore fun core =>
      core.report .debug "uart read with empty receive buffer" [core.uartName])
  | b :: rest =>
    if m.uart.xoff && rest.length < Uart.capacity then
      let m := { m with uart := { m.uart with pending := rest, xoff := false } }
      (b, m.raise (m.lineOf .xon) 1)
    else (b, { m with uart := { m.uart with pending := rest } })

/-- What a read of a UART register gives. -/
def uartRead (m : Machine) (offset : Nat) : UInt8 × Machine :=
  if offset = ucsra then (m.uartStatus, m)
  else if offset = udr then m.receivedByte
  else (m.data.get (m.uartAddress offset), m)

/-- Reports the speed that the two rate registers give. -/
def reportRate (m : Machine) : Machine :=
  let rate := (m.data.get (m.uartAddress ubrrl)).toNat +
    (m.data.get (m.uartAddress ubrrh)).toNat % 16 * 256
  if m.frequency = 0 then m
  else m.onCore fun core => core.report .debug "uart baud rate"
    [core.uartName, ("baud", .number (core.frequency.toNat / (16 * (rate + 1)) : Nat))]

/-- Sends a byte: it appears on the output line at once. -/
def send (m : Machine) (value : UInt8) : Machine :=
  let m :=
    if m.data.get (m.uartAddress ucsrb) &&& txen == 0 then
      m.onCore fun core =>
        core.report .debug "uart write with transmitter disabled" [core.uartName]
    else m
  let m := { m with uart := { m.uart with transmitted := true } }
  let m := m.refreshStatus
  m.raise (m.lineOf .output) value.toUInt32

/-- What a write to a UART register does, after the value was stored. Writing a one to the transmission
bit clears it. -/
def uartWrite (m : Machine) (offset : Nat) (value : UInt8) : Machine :=
  if offset = ucsra then
    let m :=
      if value &&& txc != 0 then { m with uart := { m.uart with transmitted := false } } else m
    m.refreshStatus
  else if offset = ubrrl || offset = ubrrh then m.reportRate
  else if offset = udr then m.send value
  else m

/-- The UART register at an address, if it is one. -/
def uartOffset? (m : Machine) (address : UInt16) : Option Nat :=
  let base := m.model.uart.base.toNat
  if base ≤ address.toNat ∧ address.toNat ≤ base + udr then some (address.toNat - base) else none

/-! ## Reads and writes -/

/-- Reads a byte. A UART register is brought up to date first. -/
def read (m : Machine) (address : UInt16) : UInt8 × Machine :=
  if address.toNat < m.data.size then
    let m := match m.uartOffset? address with
      | none => m
      | some offset =>
        let (value, m) := m.uartRead offset
        { m with data := m.data.set address.toNat value }
    let value := m.data.get address.toNat
    (value, m.onCore (·.noteAccess (.read address value)))
  else
    (0, m.onCore fun core =>
      core.crash "data read out of range" "addr" (Core.shownAddress 4 address.toNat))

/-- Writes a byte. -/
def write (m : Machine) (address : UInt16) (value : UInt8) : Machine :=
  if address.toNat < m.data.size then
    let m := { m with data := m.data.set address.toNat value }
    let m := match m.uartOffset? address with
      | none => m
      | some offset => m.uartWrite offset value
    let value := m.data.get address.toNat
    m.onCore (·.noteAccess (.write address value))
  else
    m.onCore fun core =>
      core.crash "data write out of range" "addr" (Core.shownAddress 4 address.toNat)

/-! ## The stack -/

/-- Pushes a byte. -/
def push (m : Machine) (value : UInt8) : Machine :=
  let sp := m.data.sp
  let m := m.write sp value
  { m with data := m.data.setSp (sp - 1) }

/-- Pops a byte. -/
def pop (m : Machine) : UInt8 × Machine :=
  let sp := m.data.sp + 1
  let m := { m with data := m.data.setSp sp }
  m.read sp

/-- Pushes the low 16 bits of a word address, low byte first. -/
def pushAddress (m : Machine) (address : UInt32) : Machine :=
  (m.push address.toUInt8).push (address >>> 8).toUInt8

/-- Pops a word address. -/
def popAddress (m : Machine) : UInt32 × Machine :=
  let (high, m) := m.pop
  let (low, m) := m.pop
  ((high.toUInt32 <<< 8) ||| low.toUInt32, m)

end AvrSim.Machine
