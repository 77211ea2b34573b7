/-!
# Wiring

Lines carry 32 bit values between the parts of a simulation. Every line belongs to a pool. On a pool
that is not frozen, observers can be subscribed to its lines and its lines can be connected to each
other; a connection that would close a cycle is refused.

* `Wiring.alloc`, `Wiring.subscribe`, `Wiring.connect` and `Wiring.freeze` build a wiring.
* `Wiring.reaches` follows connections; because no cycle can be built, the number of lines bounds the
  length of a path.
-/

namespace AvrSim

/-- A line: its number and name in its pool, the value last raised on it, and who hears of a raise.
Sinks are positions among all lines. A filtered line ignores a raise of the value it has. -/
structure Line (ω : Type) where
  id : Int64
  name : String
  pool : Nat
  value : UInt32 := 0
  filtered : Bool := false
  observers : List ω := []
  sinks : List Nat := []
  deriving Repr

/-- How a line is called in messages. -/
def Line.label {ω : Type} (l : Line ω) : String :=
  "irq#" ++ toString l.id ++ (if l.name = "" then "" else "(" ++ l.name ++ ")")

/-- All lines, in the order they were allocated, and the pools that are frozen. -/
structure Wiring (ω : Type) where
  lines : Array (Line ω) := #[]
  frozen : List Nat := []
  deriving Repr

/-- Why a change of the wiring was refused. -/
inductive WiringError
  | frozen
  | foreign (line : String)
  | cycle (source sink : String)
  deriving DecidableEq, Repr

/-- The wording of a refusal. -/
def WiringError.message : WiringError → String
  | .frozen => "irq: pool wiring is frozen"
  | .foreign line => "irq: line belongs to another pool: " ++ line
  | .cycle source sink => "irq: connection would create a cycle: " ++ source ++ " -> " ++ sink

namespace Wiring

variable {ω : Type}

/-! ## Looking -/

/-- The name of a line in messages, also if there is no such line. -/
def label (w : Wiring ω) (line : Nat) : String :=
  match w.lines[line]? with
  | some l => l.label
  | none => "irq#" ++ toString line

/-- The lines a line is connected to, in the order of connection. -/
def sinks (w : Wiring ω) (line : Nat) : List Nat :=
  match w.lines[line]? with
  | some l => l.sinks
  | none => []

/-- Whether a line belongs to a pool. -/
def owns (w : Wiring ω) (pool line : Nat) : Bool :=
  match w.lines[line]? with
  | some l => l.pool == pool
  | none => false

/-- Whether the wiring of a pool can no longer change. -/
def isFrozen (w : Wiring ω) (pool : Nat) : Bool := w.frozen.contains pool

/-- The number of lines of a pool. -/
def poolSize (w : Wiring ω) (pool : Nat) : Nat := w.lines.countP (·.pool == pool)

/-- Whether `target` can be reached from `line` over at most `depth` connections. -/
def reachesWithin (w : Wiring ω) : Nat → Nat → Nat → Bool
  | 0, line, target => line == target
  | depth + 1, line, target =>
    line == target || (w.sinks line).any fun sink => w.reachesWithin depth sink target

/-- Whether `target` is `line` or can be reached from it over connections. -/
def reaches (w : Wiring ω) (line target : Nat) : Bool :=
  w.reachesWithin w.lines.size line target

/-! ## Building -/

/-- Adds `count` lines numbered from `base` to a pool. Numbers wrap at 64 bits. Names are given in
order; lines past the last name have none. -/
def alloc (w : Wiring ω) (pool : Nat) (base : Int64) (count : Nat) (names : List String) :
    Wiring ω :=
  { w with lines := w.lines ++ ((List.range count).map fun (i : Nat) =>
      ({ id := base + Int64.ofNat i, name := names.getD i "", pool := pool } : Line ω)).toArray }

/-- The pool must not be frozen and must own the lines. -/
def check (w : Wiring ω) (pool : Nat) (lines : List Nat) : Except WiringError Unit :=
  if w.isFrozen pool then .error .frozen
  else match lines.find? (!w.owns pool ·) with
    | some line => .error (.foreign (w.label line))
    | none => .ok ()

/-- Adds an observer to a line, after those it has. -/
def subscribe (w : Wiring ω) (pool line : Nat) (observer : ω) : Except WiringError (Wiring ω) := do
  w.check pool [line]
  return { w with lines :=
    w.lines.modify line fun l => { l with observers := l.observers ++ [observer] } }

/-- Connects a line to a sink, after those it has. -/
def connect (w : Wiring ω) (pool source sink : Nat) : Except WiringError (Wiring ω) := do
  w.check pool [source, sink]
  if source == sink || w.reaches sink source then
    throw (.cycle (w.label source) (w.label sink))
  return { w with lines := w.lines.modify source fun l => { l with sinks := l.sinks ++ [sink] } }

/-- Freezes a pool for good. -/
def freeze (w : Wiring ω) (pool : Nat) : Wiring ω :=
  if w.isFrozen pool then w else { w with frozen := pool :: w.frozen }

/-- Stores a value on a line. -/
def setValue (w : Wiring ω) (line : Nat) (value : UInt32) : Wiring ω :=
  { w with lines := w.lines.modify line fun l => { l with value := value } }

end Wiring

end AvrSim
