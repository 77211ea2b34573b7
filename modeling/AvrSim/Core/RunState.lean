/-!
# Run states

What the core does at its next step. A core that is crashed or done never runs again. State codes
without a name are kept; a core in such a state checks that it could fetch and does nothing else.
-/

namespace AvrSim

/-- What the core does next. -/
inductive RunState
  | running
  | stopped
  | sleeping
  | crashed
  | done
  | unnamed (code : Nat)
  deriving DecidableEq, Repr, Inhabited

namespace RunState

/-- The state of a code. -/
def ofCode : Nat → RunState
  | 0 => running
  | 1 => stopped
  | 2 => sleeping
  | 3 => crashed
  | 4 => done
  | code => unnamed code

/-- The name of a state. -/
def name : RunState → String
  | running => "running"
  | stopped => "stopped"
  | sleeping => "sleeping"
  | crashed => "crashed"
  | done => "done"
  | unnamed code => "RunState(" ++ toString code ++ ")"

/-- Whether the core has ended. -/
def isTerminal : RunState → Bool
  | crashed | done => true
  | _ => false

end RunState

end AvrSim
