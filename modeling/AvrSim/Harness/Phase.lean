import AvrSim.Core.RunState

/-!
# Phases and results of a run

A harness goes through its phases in order; each of its operations is possible in certain phases only.
-/

namespace AvrSim

/-- How far a harness has come. -/
inductive Phase
  | initializing
  | ready
  | wired
  | waitingForDebugger
  | running
  | finished
  deriving DecidableEq, Repr

namespace Phase

/-- The phase of a code. -/
def ofCode? : Nat → Option Phase
  | 0 => some initializing
  | 1 => some ready
  | 2 => some wired
  | 3 => some waitingForDebugger
  | 4 => some running
  | 5 => some finished
  | _ => none

/-- The name of a phase. -/
def name : Phase → String
  | initializing => "initializing"
  | ready => "ready"
  | wired => "wired"
  | waitingForDebugger => "waiting-for-debugger"
  | running => "running"
  | finished => "finished"

/-- The name of a code. -/
def nameOfCode (code : Nat) : String :=
  match ofCode? code with
  | some phase => phase.name
  | none => "phase(" ++ toString code ++ ")"

end Phase

/-- Why a run ended. -/
inductive Reason
  | done
  | crashed
  | sentinel
  deriving DecidableEq, Repr

namespace Reason

/-- The reason of a code. -/
def ofCode? : Nat → Option Reason
  | 0 => some done
  | 1 => some crashed
  | 2 => some sentinel
  | _ => none

/-- The name of a reason. -/
def name : Reason → String
  | done => "done"
  | crashed => "crashed"
  | sentinel => "sentinel"

/-- The name of a code. -/
def nameOfCode (code : Nat) : String :=
  match ofCode? code with
  | some reason => reason.name
  | none => "reason(" ++ toString code ++ ")"

end Reason

/-- How a run ended. -/
structure Result where
  reason : Reason
  state : RunState
  cycles : UInt64
  deriving DecidableEq, Repr

/-- What a run is asked for. -/
structure Config where
  mcu : String := "atmega328p"
  frequency : UInt32 := 16000000
  logLevel : String := "info"
  gdb : Bool := false
  gdbAddress : String := ":1234"
  deriving DecidableEq, Repr

end AvrSim
