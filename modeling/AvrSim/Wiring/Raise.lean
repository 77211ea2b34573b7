import AvrSim.Wiring.Basic

/-!
# Raising lines

Raising a value on a line stores it, runs the line's observers in order of subscription and then raises
the value on its sinks in order of connection, depth first. A filtered line that holds the value already
ignores the raise. An observer changes a state of its own and may raise a line itself; that raise is
complete before the next observer runs.

Raises nest at most `Wiring.raiseDepth` deep. Connections form no cycle, so between observers that raise
nothing a chain of raises passes each line at most once and stays below that depth.
-/

namespace AvrSim

/-- What an observer does when its line is raised: the new state, and a raise of its own if it makes
one. It is told the position of the line, the line itself and the value. -/
abbrev Reaction (ω σ : Type) :=
  ω → Nat → Line ω → UInt32 → σ → σ × Option (Nat × UInt32)

namespace Wiring

variable {ω σ : Type}

/-- Raises a value on a line, with at most `depth` nested raises. -/
def raiseWithin (react : Reaction ω σ) : Nat → Nat → UInt32 → Wiring ω × σ → Wiring ω × σ
  | 0, _, _, state => state
  | depth + 1, line, value, (w, s) =>
    match w.lines[line]? with
    | none => (w, s)
    | some l =>
      if l.filtered && l.value == value then (w, s)
      else
        let observed := l.observers.foldl
          (fun (state : Wiring ω × σ) observer =>
            match react observer line l value state.2 with
            | (s, none) => (state.1, s)
            | (s, some (next, raised)) => raiseWithin react depth next raised (state.1, s))
          (w.setValue line value, s)
        l.sinks.foldl (fun state sink => raiseWithin react depth sink value state) observed

/-- The deepest nesting of raises. -/
def raiseDepth (w : Wiring ω) : Nat := (w.lines.size + 1) * (w.lines.size + 1)

/-- Raises a value on a line. -/
def raise (react : Reaction ω σ) (line : Nat) (value : UInt32) (w : Wiring ω) (s : σ) :
    Wiring ω × σ :=
  raiseWithin react w.raiseDepth line value (w, s)

end Wiring

end AvrSim
