import AvrSim.Wiring.Raise

/-!
# Probes on lines

A probe is an observer with a tag that writes down what it hears, and may relay it: it then raises
another line with the value increased by one.
-/

namespace AvrSim

/-- An observer that notes its tag, the line and the value, and may relay the value. -/
structure Probe where
  tag : String
  relay : Option Nat
  deriving DecidableEq, Repr

/-- What a probe notes. -/
def Probe.note (p : Probe) (line : Nat) (l : Line Probe) (value : UInt32) : String :=
  p.tag ++ ":" ++ toString line ++ ":" ++ l.label ++ "=" ++ toString value.toNat

/-- A probe adds its note and then relays. -/
def Probe.react : Reaction Probe (Array String) := fun p line l value notes =>
  (notes.push (p.note line l value), p.relay.map fun next => (next, value + 1))

/-- A wiring with probes. A tag belongs to one probe; its relay is fixed when the tag is first used. -/
structure ProbeBoard where
  wiring : Wiring Probe := {}
  probes : List Probe := []

namespace ProbeBoard

/-- The probe of a tag, made with the given relay if the tag is new. -/
def probe (board : ProbeBoard) (tag : String) (relay : Option Nat) : Probe × ProbeBoard :=
  match board.probes.find? (·.tag == tag) with
  | some p => (p, board)
  | none => (⟨tag, relay⟩, { board with probes := ⟨tag, relay⟩ :: board.probes })

/-- Subscribes the probe of a tag to a line. The probe stays known if this is refused. -/
def subscribe (board : ProbeBoard) (pool line : Nat) (tag : String) (relay : Option Nat) :
    Except WiringError Unit × ProbeBoard :=
  let (p, board) := board.probe tag relay
  match board.wiring.subscribe pool line p with
  | .ok wiring => (.ok (), { board with wiring })
  | .error e => (.error e, board)

/-- Raises a line and collects the notes of the probes. -/
def raise (board : ProbeBoard) (line : Nat) (value : UInt32) : List String × ProbeBoard :=
  let (wiring, notes) := board.wiring.raise Probe.react line value #[]
  (notes.toList, { board with wiring })

end ProbeBoard

end AvrSim
