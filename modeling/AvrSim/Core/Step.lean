import AvrSim.Core.Execute

/-!
# Steps

One step executes an instruction and then takes an interrupt if one is due; a sleeping core only waits
for an interrupt. A core that has ended stays as it is.

* `Machine.tick` is a step up to the point where a debugger would be asked, and says whether it is.
* `Machine.step` is a step of a machine without a debugger.
-/

namespace AvrSim.Machine

/-- The interrupt that the UART asks for: a received byte before readiness to send before a completed
transmission. -/
def pendingVector? (m : Machine) : Option Nat :=
  let control := m.data.get (m.uartAddress ucsrb)
  let config := m.model.uart
  if control &&& rxcie != 0 && !m.uart.pending.isEmpty then some config.receiveVector
  else if control &&& udrie != 0 then some config.emptyVector
  else if control &&& txcie != 0 && m.uart.transmitted then some config.transmitVector
  else none

/-- Taking the vector of a completed transmission forgets it. -/
def acknowledge (m : Machine) (vector : Nat) : Machine :=
  if vector = m.model.uart.transmitVector then
    { m with uart := { m.uart with transmitted := false } }
  else m

/-- Enters an interrupt: the program counter is pushed, interrupts are off and the core runs. -/
def enterInterrupt (m : Machine) (vector : Nat) : Machine :=
  let m := m.acknowledge vector
  let m := m.onCore (·.report .debug "interrupt" [("vector", .number vector)])
  let m := m.pushAddress m.returnAddress
  let m := m.onData (·.setFlag .i false)
  { m with
    program := UInt32.ofNat (vector * m.model.vectorSize)
    cycle := m.cycle + 4
    run := .running }

/-- Takes an interrupt if interrupts are on and one is asked for. One step after they were switched on
nothing is taken. -/
def serviceInterrupts (m : Machine) : Machine :=
  if m.interruptDelay then { m with interruptDelay := false }
  else if m.data.flag Flag.i.val then
    match m.pendingVector? with
    | some vector => m.enterInterrupt vector
    | none => m
  else m

/-- A step up to the debugger's turn, and whether it has one. -/
def tick (m : Machine) : Machine × Bool :=
  match m.run with
  | .done | .crashed => (m, false)
  | .stopped => if m.probed then (m, true) else ({ m with run := .running }, false)
  | .sleeping => (({ m with cycle := m.cycle + 1 } : Machine).serviceInterrupts, false)
  | _ =>
    let m := m.execute
    let m := if m.run = .running then m.serviceInterrupts else m
    (m, m.probed && !m.run.isTerminal)

/-- A step without a debugger. -/
def step (m : Machine) : Machine := m.tick.1

end AvrSim.Machine
