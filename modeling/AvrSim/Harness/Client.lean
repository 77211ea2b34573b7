import AvrSim.Bench

/-!
# Scripted clients

A debugger client that sends the packets of a script. It sends one packet, waits for one answer, and
sends the next; with nothing left to send it goes away. Where the connection ends instead of an answer,
or before all packets are sent, that is written down and the script is over.

* `Client.converse` goes on as long as the session is held.
* `Client.ended` is told that the connection is gone.
-/

namespace AvrSim

/-- A client: the packets it still has to send, the answers it got, none where the connection ended,
and whether it waits for an answer. -/
structure Client where
  script : List Bytes := []
  answers : Array (Option Bytes) := #[]
  waiting : Bool := false
  deriving Repr

namespace Client

/-- Takes an answer. -/
def hear (c : Client) (reply : Gdb.Reply) : Client :=
  { c with answers := c.answers.push (some (Gdb.frame reply.payload)), waiting := false }

/-- The connection is gone. -/
def ended (c : Client) : Client :=
  if c.waiting || !c.script.isEmpty then
    { c with script := [], answers := c.answers.push none, waiting := false }
  else c

/-- Whether the server still has a connection. -/
def isConnected (b : Bench) : Bool := b.server?.any (·.connection.isSome)

/-- Sends packets as long as the session is held and each gets its answer. -/
def converseFrom (b : Bench) (c : Client) : List Bytes → Bench × Client
  | [] => (if b.isHeld && !c.waiting then b.hangUp else b, { c with script := [] })
  | packet :: rest =>
    if b.isHeld && !c.waiting then
      let (b, _, answers) := b.receive (Gdb.frame packet)
      let c := { c with script := rest, waiting := true }
      let c := answers.foldl (fun c answer => (answer.map c.hear).getD c) c
      if isConnected b then converseFrom b c rest else (b, c.ended)
    else (b, { c with script := packet :: rest })

/-- Sends packets as long as the session is held and each gets its answer; with none left the client
goes away. -/
def converse (c : Client) (b : Bench) : Bench × Client := converseFrom b c c.script

end Client

end AvrSim
