import AvrSim.Gdb.Command
import AvrSim.Gdb.Register

/-!
# The debug server

A server is connected to a machine and serves one client at a time. While the session is held the core stands still and packets are answered; a packet that resumes the core ends that. While
the core runs the server has a turn after each instruction, where it may stop the core, send a stop
reply and hold the session again.

* `Gdb.Server.handle` answers one packet.
* `Gdb.Server.serve` answers the packets that wait, as long as the session is held.
* `Gdb.Server.attend` is the server's turn after an instruction.
* `Gdb.Server.watch` remembers a watched access until that turn.
-/

namespace AvrSim.Gdb

/-- The connection to a client: what was read of a frame, the packets received and not yet served, and
whether the client has gone away. -/
structure Connection where
  reader : Reader := .idle
  queue : List Bytes := []
  closed : Bool := false
  deriving DecidableEq, Repr

/-- The state of a server. `breakNext` and `stepping` stop the core at the next turn, and `pending` is a
stop that waits for it. -/
structure Server where
  breakNext : Bool := false
  stepping : Bool := false
  pending : Option StopReply := none
  points : Points := {}
  connection : Option Connection := none
  held : Bool := false
  deriving DecidableEq, Repr

/-- What a packet leads to. -/
structure Answer where
  server : Server
  machine : Machine
  reply : Option Reply := none

/-! ## Memory -/

/-- The two memories that a client can reach. -/
inductive Space
  | flash
  | data
  deriving DecidableEq, Repr

/-- The memory of a space. -/
def Space.memory (m : Machine) : Space → Memory
  | flash => m.flash
  | data => m.data

/-- The place of a range of client addresses, if all of it exists. -/
def locate? (m : Machine) (address length : Nat) : Option (Space × Nat) :=
  if dataLimit ≤ address then none
  else
    let (space, offset) : Space × Nat :=
      if dataStart ≤ address then (.data, address - dataStart) else (.flash, address)
    if offset + length ≤ (space.memory m).size then some (space, offset) else none

/-- The bytes of a range. -/
def readMemory? (m : Machine) (address length : Nat) : Option (List UInt8) :=
  (locate? m address length).map fun (space, offset) => (space.memory m).slice offset length

/-- Changes the bytes of a range. -/
def writeMemory? (m : Machine) (address : Nat) (bytes : List UInt8) : Option Machine :=
  (locate? m address bytes.length).map fun (space, offset) =>
    match space with
    | .flash => { m with flash := m.flash.store offset bytes }
    | .data => { m with data := m.data.store offset bytes }

namespace Server

/-! ## Packets -/

/-- Drops the client. -/
def disconnect (s : Server) : Server := { s with connection := none, held := false }

/-- Answers with a value, or with a failure if there is none. -/
def answerBytes (s : Server) (m : Machine) (value : Option (List UInt8)) : Answer :=
  ⟨s, m, some ((value.map Reply.bytes).getD .failed)⟩

/-- Takes a changed machine, or answers with a failure if there is none. -/
def answerChange (s : Server) (m : Machine) (changed : Option Machine) : Answer :=
  match changed with
  | some m => ⟨s, m, some .ok⟩
  | none => ⟨s, m, some .failed⟩

/-- Changes the points if the request is sound. -/
def changePoint (s : Server) (m : Machine) (packet : Bytes) (request : Except PointError Point)
    (change : Points → Point → Points) : Answer :=
  match request with
  | .ok point => ⟨{ s with points := change s.points point }, m, some .ok⟩
  | .error e =>
    let m := m.log .debug "gdb point rejected"
      [("packet", .text packet), ("err", .ofString e.message)]
    ⟨s, m, some .unsupported⟩

/-- Carries out a command that was read from a packet. -/
def carryOut (s : Server) (m : Machine) (packet : Bytes) : Command → Answer
  | .stopReason => ⟨s, m, some (.stop .trap)⟩
  | .features => ⟨s, m, some .packetSize⟩
  | .attached => ⟨s, m, some .attached⟩
  | .readRegisters => ⟨s, m, some (.bytes m.registerBytes)⟩
  | .writeRegisters bytes => s.answerChange m (m.storeRegisters? bytes)
  | .readRegister number => s.answerBytes m (m.register? number)
  | .writeRegister number bytes => s.answerChange m (m.storeRegister? number bytes)
  | .readMemory address length => s.answerBytes m (readMemory? m address length)
  | .writeMemory address bytes => s.answerChange m (writeMemory? m address bytes)
  | .resume single target =>
    ⟨{ s with stepping := single, held := false },
      { m with program := target.getD m.program, run := .running }, none⟩
  | .kill => ⟨s.disconnect, { m.log .info "gdb killed the core" [] with run := .done }, none⟩
  | .detach => ⟨s.disconnect, { m.log .info "gdb detached" [] with run := .running }, some .ok⟩
  | .insertPoint request => s.changePoint m packet request Points.insert
  | .erasePoint request => s.changePoint m packet request Points.erase
  | .malformed => ⟨s, m, some .failed⟩
  | .unknown => ⟨s, m, some .unsupported⟩

/-- Answers a packet. An empty packet and an interrupt of a core that stands still mean nothing. -/
def handle (s : Server) (m : Machine) (packet : Bytes) : Answer :=
  if packet.isEmpty || packet == interrupt then ⟨s, m, none⟩
  else
    s.carryOut (m.log .trace "gdb packet" [("packet", .text packet)]) packet
      (Command.parse packet)

/-! ## Holding a session -/

/-- The client has gone away: the core runs on alone. -/
def lose (s : Server) (m : Machine) : Server × Machine :=
  (s.disconnect, { m.log .info "gdb disconnected" [] with run := .running })

/-- Leaves packets in the queue for later. -/
def keepQueue (s : Server) (queue : List Bytes) : Server :=
  { s with connection := s.connection.map fun c => { c with queue } }

/-- Answers packets until one resumes the core. With no packet left, the session stays held for as long
as there is a client. The answers come last first. -/
def serveFrom (s : Server) (m : Machine) (answers : List (Option Reply)) :
    List Bytes → Server × Machine × List (Option Reply)
  | [] =>
    let s := s.keepQueue []
    if s.connection.all (·.closed) then
      let (s, m) := s.lose m
      (s, m, answers)
    else (s, m, answers)
  | packet :: rest =>
    let a := s.handle m packet
    if a.server.held then serveFrom a.server a.machine (a.reply :: answers) rest
    else (a.server.keepQueue rest, a.machine, a.reply :: answers)

/-- The packets that wait. -/
def queue (s : Server) : List Bytes := (s.connection.map (·.queue)).getD []

/-- Answers the packets that wait as long as the session is held, and gives one answer for each. -/
def serve (s : Server) (m : Machine) : Server × Machine × List (Option Reply) :=
  if s.held then
    let (s, m, answers) := s.serveFrom m [] s.queue
    (s, m, answers.reverse)
  else (s, m, [])

/-! ## The server's turn -/

/-- Remembers a watched access unless a stop is pending already. -/
def watch (s : Server) (address : UInt16) (isWrite : Bool) : Server :=
  if s.connection.isSome && s.pending.isNone then
    { s with pending := (s.points.watching? address isWrite).map fun w => .watch w.kind address }
  else s

/-- Stops the core, holds the session and tells the client why, if there is one. -/
def stop (s : Server) (m : Machine) (reason : StopReply) : Server × Machine × Option StopReply :=
  ({ s with breakNext := false, stepping := false, pending := none, held := true },
    { m with run := .stopped }, if s.connection.isSome then some reason else none)

/-- Looks through the packets that came in while the core was running. All before the first interrupt
are ignored; without an interrupt a client that has gone away is noticed. -/
def pollInterrupt (s : Server) (c : Connection) (m : Machine) : Bool × Server × Machine :=
  let ignored := c.queue.takeWhile (· != interrupt)
  let m := ignored.foldl
    (fun m packet => m.log .debug "gdb packet ignored while running" [("packet", .text packet)]) m
  match c.queue.dropWhile (· != interrupt) with
  | _ :: rest => (true, s.keepQueue rest, m)
  | [] =>
    if c.closed then (false, s.disconnect, m.log .info "gdb disconnected" [])
    else (false, s.keepQueue [], m)

/-- The turn after an instruction: stops the core for a pending stop, for a break, a step or a stopped
core, for an interrupt, or at a breakpoint, whichever comes first. Without a client a stopped core runs
on. -/
def attend (s : Server) (m : Machine) : Server × Machine × Option StopReply :=
  match s.connection with
  | none => (s, if m.run = .stopped then { m with run := .running } else m, none)
  | some c =>
    match s.pending with
    | some reason => s.stop m reason
    | none =>
      if m.run = .stopped || s.breakNext || s.stepping then s.stop m .trap
      else
        let (interrupted, s, m) := s.pollInterrupt c m
        if interrupted then s.stop m .interrupted
        else if s.points.breakpoints.contains m.program then s.stop m .trap
        else (s, m, none)

/-! ## Clients -/

/-- Waits for a client: the core is stopped. -/
def await (m : Machine) (address : String) : Machine :=
  { m.log .info "waiting for gdb" [("addr", .ofString address)] with run := .stopped }

/-- A client connects: the session is held. -/
def accept (s : Server) (m : Machine) (remote : String) : Server × Machine :=
  ({ s with connection := some {}, held := true },
    m.log .info "gdb connected" [("remote", .ofString remote)])

/-- Bytes from the client: they are read and the packets among them wait to be served. -/
def receive (s : Server) (bytes : Bytes) : Server × List Arrival :=
  match s.connection with
  | none => (s, [])
  | some c =>
    let (reader, arrivals) := c.reader.feedAll bytes
    ({ s with connection := some { c with
        reader, queue := c.queue ++ arrivals.filterMap Arrival.packet? } }, arrivals)

/-- The client goes away. The server notices when it next looks at the queue. -/
def hangUp (s : Server) : Server :=
  { s with connection := s.connection.map fun c => { c with closed := true } }

end Server

end AvrSim.Gdb
