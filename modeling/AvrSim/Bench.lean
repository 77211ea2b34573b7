import AvrSim.Core.Step
import AvrSim.Gdb.Server

/-!
# A machine on the bench

A bench is a machine with an instrument connected to it, or none: a recorder, which notes each step and
each access, or a debug server.

* `Bench.advance` is one step with the turn of the instrument; a server may end it by holding the
  session.
* `Bench.serve` lets the server answer the packets that wait; `Bench.step` is both.
* `Bench.take` hands out what was noted.
-/

namespace AvrSim

/-- What is connected to a machine to watch it. -/
inductive Instrument
  | none
  | recorder
  | server (server : Gdb.Server)

/-- A machine, its instrument, and what was noted of its lines and, for a recorder, of its steps and
accesses. -/
structure Bench where
  machine : Machine
  instrument : Instrument := .none
  seen : Array Note := #[]

namespace Bench

/-! ## Notes -/

/-- The server remembers watched accesses. -/
def watch (s : Gdb.Server) : Note → Gdb.Server
  | .read address _ => s.watch address false
  | .write address _ => s.watch address true
  | _ => s

/-- A note that is not about an access. -/
def isPublic : Note → Bool
  | .read .. | .write .. => false
  | _ => true

/-- Gathers the notes that the machine took. A server is told of the accesses among them. -/
def gather (b : Bench) : Bench :=
  if b.machine.notes.isEmpty then b
  else match b with
    | ⟨machine, instrument, seen⟩ =>
      let notes := machine.notes
      let machine := { machine with notes := #[] }
      match instrument with
      | .recorder => ⟨machine, instrument, seen ++ notes⟩
      | .none => ⟨machine, instrument, seen ++ notes.filter isPublic⟩
      | .server s => ⟨machine, .server (notes.foldl watch s), seen ++ notes.filter isPublic⟩

/-- What was noted so far, and the bench without it. -/
def take (b : Bench) : Array Note × Bench := (b.seen, { b with seen := #[] })

/-- Does something to the machine from outside and gathers what it noted. -/
def act (b : Bench) (f : Machine → Machine) : Bench :=
  match b with
  | ⟨machine, instrument, seen⟩ => gather ⟨f machine, instrument, seen⟩

/-! ## The instrument -/

/-- Connects an instrument. -/
def connect (b : Bench) (instrument : Instrument) : Bench :=
  let probed := match instrument with
    | .none => false
    | _ => true
  { b with machine := { b.machine with probed }, instrument }

/-- The server that is connected. -/
def server? (b : Bench) : Option Gdb.Server :=
  match b.instrument with
  | .server s => some s
  | _ => none

/-- Whether a server holds the session, so that the core stands still. -/
def isHeld (b : Bench) : Bool := b.server?.any (·.held)

/-! ## Steps -/

/-- The turn of the instrument after an instruction. -/
def attend (b : Bench) : Bench × Option Gdb.StopReply :=
  match b with
  | ⟨machine, instrument, seen⟩ =>
    match instrument with
    | .none => (⟨machine, instrument, seen⟩, none)
    | .recorder =>
      let seen := seen.push (.step machine.run)
      let machine := if machine.run = .stopped then { machine with run := .running } else machine
      (⟨machine, instrument, seen⟩, none)
    | .server s =>
      let (s, machine, reply) := s.attend machine
      (⟨machine, .server s, seen⟩, reply)

/-- One step of the core and the turn that follows it. A stop comes with the reply sent to the client. -/
def advance (b : Bench) : Bench × Option Gdb.StopReply :=
  match b with
  | ⟨machine, instrument, seen⟩ =>
    let (machine, due) := machine.tick
    let b := gather ⟨machine, instrument, seen⟩
    if due then b.attend else (b, none)

/-- Lets a server that holds the session answer the packets that wait. -/
def serve (b : Bench) : Bench × List (Option Gdb.Reply) :=
  match b with
  | ⟨machine, .server s, seen⟩ =>
    let (s, machine, answers) := s.serve machine
    (⟨machine, .server s, seen⟩, answers)
  | b => (b, [])

/-- A whole step. A core that is held takes none. -/
def step (b : Bench) : Bench := if b.isHeld then b else b.advance.1.serve.1

/-! ## Clients -/

/-- Connects a server, waits and lets a client in. -/
def attach (b : Bench) (s : Gdb.Server) (address : String) : Bench :=
  let (s, machine) := s.accept (Gdb.Server.await b.machine address) address
  ({ b with machine } : Bench).connect (.server s)

/-- Connects a server; the client that it waits for is turned away. -/
def refuse (b : Bench) (s : Gdb.Server) (address : String) : Bench :=
  ({ b with machine := Gdb.Server.await b.machine address } : Bench).connect (.server s)

/-- Changes the server that is connected. -/
def onServer (b : Bench) (f : Gdb.Server → Gdb.Server) : Bench :=
  match b.instrument with
  | .server s => { b with instrument := .server (f s) }
  | _ => b

/-- Bytes from the client: what they complete, and the answers if the session is held. -/
def receive (b : Bench) (bytes : Bytes) :
    Bench × List Gdb.Arrival × List (Option Gdb.Reply) :=
  match b.instrument with
  | .server s =>
    let (s, arrivals) := s.receive bytes
    let (b, answers) := ({ b with instrument := .server s } : Bench).serve
    (b, arrivals, answers)
  | _ => (b, [], [])

/-- The client goes away. A session that is held ends at once. -/
def hangUp (b : Bench) : Bench := (b.onServer (·.hangUp)).serve.1

end Bench

end AvrSim
