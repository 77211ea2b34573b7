import AvrSim.Harness.Basic

/-!
# Running a firmware

One turn of a run asks the source for a byte if it is time, takes a step of the core, and looks whether
the run has ended: by the sentinel, because the core is done, or because it crashed.

* `Harness.turn` is one turn.
* `Harness.run` takes turns until the run ends, or until the turns it was allowed are used up.
-/

namespace AvrSim

namespace Harness

/-- The ways in which turns end. -/
inductive Ending
  | result (result : Result)
  | inputFailed
  deriving DecidableEq, Repr

/-! ## Output and flow control -/

/-- What a note of the wiring means to the harness. -/
def observe (h : Harness) : Note → Harness
  | .line .sink value =>
    if value = sentinel then { h with terminated := true }
    else { h with output := h.output.push value }
  | .line .xon _ => { h with paused := false }
  | .line .xoff _ => { h with paused := true }
  | _ => h

/-- Looks at what was noted. -/
def observeAll (h : Harness) : Harness :=
  if h.bench.seen.isEmpty then h
  else
    let (seen, bench) := h.bench.take
    seen.foldl observe { h with bench }

/-- The line that is written for a byte of output. -/
def outputLine (value : UInt32) : String := "uart: " ++ Text.hexUpper value.toNat ++ "\n"

/-- What was written, and the harness without it. -/
def takeOutput (h : Harness) : String × Harness :=
  (String.join (h.output.toList.map outputLine), { h with output := #[] })

/-! ## Input -/

/-- The answer of the source, and what it answers next. -/
def ask : List Poll → Poll × List Poll
  | [] => (.closed, [])
  | p :: rest => (p, rest)

/-- Asks the source for a byte and raises it on the line of the source. Also says whether the source
failed. -/
def poll (h : Harness) (source : Nat) : Harness × Bool :=
  let (answer, rest) := ask (h.input.getD [])
  let h := { h with input := some rest, reads := h.reads + 1 }
  match answer with
  | .byte b =>
    let bench := h.bench.act fun m =>
      (m.log .trace "uart input" [("byte", Core.shownAddress 2 b.toNat)]).raise source b.toUInt32
    (observeAll { h with bench }, false)
  | .nothing => (h, false)
  | .failed => (h, true)
  | .closed =>
    ({ h with bench := h.bench.act (·.log .debug "input closed" []), source := none }, false)

/-- Whether the source is to be asked in this turn. -/
def pollDue (h : Harness) : Option Nat :=
  if h.steps % pollInterval = 0 && !h.paused then h.source else none

/-! ## Turns -/

/-- Reports the end of a run. -/
def conclude (h : Harness) (reason : Reason) (level : Level) (message : String)
    (values : List (String × Value)) : Harness × Option Ending :=
  let m := h.machine
  let result : Result := ⟨reason, m.run, m.cycle⟩
  let cycles : String × Value := ("cycles", .number m.cycle.toNat)
  ({ h with bench := h.bench.act (·.log level message (values ++ [cycles])) }, some (.result result))

/-- Looks whether the run has ended. -/
def judge (h : Harness) : Harness × Option Ending :=
  if h.terminated then h.conclude .sentinel .info "sentinel received" []
  else match h.machine.run with
    | .done => h.conclude .done .info "core done" []
    | .crashed => h.conclude .crashed .warn "core crashed" [h.machine.shownProgram]
    | _ => (h, none)

/-- The client hears the reply of a stop and goes on. -/
def hearStop (h : Harness) : Option Gdb.StopReply → Harness
  | none => h
  | some reason =>
    let client := h.client.map fun c => c.hear (.stop reason)
    { h with client }.converse

/-- A step of the core, with all that a debugger does in it. A core that is held takes none. -/
def advance (h : Harness) : Harness :=
  if h.bench.isHeld then h
  else
    let (bench, reply) := h.bench.advance
    let h := { h with bench := bench.serve.1, steps := h.steps + 1 }
    observeAll (h.hearStop reply)

/-- One turn. -/
def turn (h : Harness) : Harness × Option Ending :=
  match h.pollDue with
  | none => h.advance.judge
  | some source =>
    match h.poll source with
    | (h, true) => (h, some .inputFailed)
    | (h, false) => h.advance.judge

/-- At most so many turns. -/
def turns : Nat → Harness → Harness × Option Ending
  | 0, h => (h, none)
  | n + 1, h =>
    match h.turn with
    | (h, none) => turns n h
    | (h, some ending) => (h, some ending)

/-- The connection of the client ends, if there is one. -/
def hangUp (h : Harness) : Harness :=
  { h with bench := h.bench.onServer (·.disconnect), client := h.client.map Client.ended }

/-- The run is over: the debugger is gone. -/
def finish (h : Harness) : Harness := { h.hangUp with phase := .finished }

/-- Begins a run. -/
def start (h : Harness) : Harness :=
  { h with
    bench := h.bench.act fun m => m.log .info "running" [m.shownProgram]
    phase := .running }

/-- Runs the core to its end. Nothing comes back if the run is not over after so many turns. -/
def run (limit : Nat) (h : Harness) : Except HarnessError (Option Result) × Harness :=
  match h.expect .run with
  | .error e => (.error e, h)
  | .ok () =>
    match h.start.turns limit with
    | (h, none) => (.ok none, h)
    | (h, some (.result result)) => (.ok (some result), h.finish)
    | (h, some .inputFailed) => (.error .input, h.finish)

end Harness

end AvrSim
