import AvrSim.Proofs.Gdb.Mirror

/-!
# A debugger that only looks

What holds of one event is taken to whole schedules and to the sessions of a client.

* `Bench.mirrors_after_iff`: a schedule keeps two benches alike exactly if none of its events disturbs
  the core.
* `Bench.session_transparent_iff`: a client that only looks is not noticed by the core, exactly if the
  core was running when the client came and no stop disturbs it.
-/

namespace AvrSim

/-- The machine without an instrument. -/
def Machine.unprobed (m : Machine) : Machine := { m with probed := false }

namespace Bench

/-! ## Schedules -/

/-- The bench after a schedule. -/
def after (b : Bench) (events : List Event) : Bench := events.foldl next b

/-- The part of a schedule that reaches the core. -/
def effective (b : Bench) : List Event → List Event
  | [] => []
  | e :: events =>
    if b.reaches e then e :: (b.next e).effective events else (b.next e).effective events

/-- What can be seen of a machine: program counter, data space, cycles, the bytes that wait in its UART,
the values of all lines, and what was noted of their raises. -/
structure Observation where
  program : UInt32
  data : Memory
  cycle : UInt64
  pending : List UInt8
  lines : Array UInt32
  seen : Array Note
  deriving DecidableEq

def observe (b : Bench) : Observation where
  program := b.machine.program
  data := b.machine.data
  cycle := b.machine.cycle
  pending := b.machine.uart.pending
  lines := b.machine.wiring.lines.map (·.value)
  seen := b.seen

/-- What is seen after each event that reaches the core. -/
def trace (b : Bench) : List Event → List Observation
  | [] => []
  | e :: events =>
    if b.reaches e then (b.next e).observe :: (b.next e).trace events else (b.next e).trace events

/-- Whether no event of a schedule changes how the core goes on. -/
def undisturbed (b : Bench) : List Event → Bool
  | [] => true
  | e :: events => !b.disturbs e && (b.next e).undisturbed events

theorem effective_cons (b : Bench) (e : Event) (events : List Event) :
    b.effective (e :: events) =
      if b.reaches e then e :: (b.next e).effective events else (b.next e).effective events := rfl

theorem trace_cons (b : Bench) (e : Event) (events : List Event) :
    b.trace (e :: events) =
      if b.reaches e then (b.next e).observe :: (b.next e).trace events
      else (b.next e).trace events := rfl

theorem after_effective_cons (d p : Bench) (e : Event) (events : List Event) :
    p.after (d.effective (e :: events)) =
      (follow d p e).after ((d.next e).effective events) := by
  rw [effective_cons, follow]
  split
  · rfl
  · rfl

theorem mirrors_after_iff {d p : Bench} (events : List Event)
    (hd : d.Attended (events.flatMap Event.sent)) (hp : p.Plain) :
    (∀ n, Mirrors (d.after (events.take n)) (p.after (d.effective (events.take n)))) ↔
      Mirrors d p ∧ d.undisturbed events = true := by
  induction events generalizing d p with
  | nil => simp [after, effective, undisturbed]
  | cons e events ih =>
    have hd' : d.Attended (e.sent ++ events.flatMap Event.sent) := by simpa using hd
    have hfirst (h : Mirrors d p) :
        Mirrors (d.next e) (follow d p e) ↔ d.disturbs e = false := mirrors_next hd' hp h
    have hlater := ih (attended_next hd') (plain_follow d hp e)
    constructor
    · intro hall
      have hnow : Mirrors d p := hall 0
      have hthen : ∀ n, Mirrors ((d.next e).after (events.take n))
          ((follow d p e).after ((d.next e).effective (events.take n))) := by
        intro n
        rw [← after_effective_cons]
        exact hall (n + 1)
      obtain ⟨hnext, hundisturbed⟩ := hlater.mp hthen
      exact ⟨hnow, by simp [undisturbed, (hfirst hnow).mp hnext, hundisturbed]⟩
    · rintro ⟨hnow, hundisturbed⟩ n
      simp only [undisturbed, Bool.and_eq_true, Bool.not_eq_true'] at hundisturbed
      cases n with
      | zero => exact hnow
      | succ n =>
        rw [List.take_succ_cons, after_effective_cons]
        exact hlater.mpr ⟨(hfirst hnow).mpr hundisturbed.1, hundisturbed.2⟩ n

theorem observe_of_mirrors {d p : Bench} (h : Mirrors d p) : d.observe = p.observe := by
  have hmachine : ({ d with machine := d.onward } : Bench).observe = d.observe := by
    unfold onward
    split
    · rfl
    · rfl
  have hview (b : Bench) : b.observe = ({ b with machine := b.machine.view false } : Bench).observe :=
    rfl
  rw [← hmachine, hview, hview p]
  dsimp only
  rw [h.machine]
  unfold observe
  rw [h.seen]

theorem trace_eq {d p : Bench} (events : List Event) (hd : d.Attended (events.flatMap Event.sent))
    (hp : p.Plain) (h : Mirrors d p) (hundisturbed : d.undisturbed events = true) :
    d.trace events = p.trace (d.effective events) := by
  induction events generalizing d p with
  | nil => rfl
  | cons e events ih =>
    simp only [undisturbed, Bool.and_eq_true, Bool.not_eq_true'] at hundisturbed
    have hd' : d.Attended (e.sent ++ events.flatMap Event.sent) := by simpa using hd
    have hnext : Mirrors (d.next e) (follow d p e) := (mirrors_next hd' hp h).mpr hundisturbed.1
    have hlater := ih (attended_next hd') (plain_follow d hp e) hnext hundisturbed.2
    rw [trace_cons, effective_cons]
    cases hreaches : d.reaches e with
    | false =>
      have hfollow : follow d p e = p := if_neg (by simp [hreaches])
      rw [hfollow] at hlater
      exact hlater
    | true =>
      have hfollow : follow d p e = p.next e := if_pos hreaches
      rw [hfollow] at hlater hnext
      have hreaches' : p.reaches e = true := by
        cases e with
        | step => simp [reaches, isHeld_of_plain hp]
        | raise line value => simp [reaches, isHeld_of_plain hp]
        | send bytes => cases hreaches
        | hangUp => cases hreaches
      rw [if_pos rfl, if_pos rfl, trace_cons, if_pos hreaches', hlater, observe_of_mirrors hnext]

/-! ## Sessions -/

/-- A machine with a server that has let a client in. -/
def attended (m : Machine) (s : Gdb.Server) (address : String) : Bench :=
  ({ machine := m } : Bench).attach s address

/-- The same machine without an instrument. A core that is found stopped is set running, as the first
step without an instrument does. -/
def unattended (m : Machine) : Bench where
  machine := if m.run = .stopped then m.unprobed.step else m.unprobed

theorem attended_attended (m : Machine) (s : Gdb.Server) (address : String) {rest : Bytes}
    (h : ∀ packet ∈ (Gdb.Reader.idle.feedAll rest).2.filterMap Gdb.Arrival.packet?,
      Gdb.isHarmless packet) : (attended m s address).Attended rest :=
  ⟨⟨_, rfl, Gdb.Server.harmless_accept s (Gdb.Server.await m address) address h⟩, nofun⟩

theorem plain_unattended (m : Machine) : (unattended m).Plain := by
  refine ⟨rfl, ?_⟩
  unfold unattended
  dsimp only
  split
  · exact Machine.probed_tick m.unprobed
  · rfl

theorem mirrors_unattended_iff (m : Machine) (s : Gdb.Server) (address : String) :
    Mirrors (attended m s address) (unattended m) ↔ (unattended m).machine.run = .running := by
  constructor
  · intro h
    exact (congrArg (·.run) h.machine).symm
  · intro hrun
    have hmachine : (unattended m).machine.view false = m.resumed.view false := by
      unfold unattended at hrun ⊢
      dsimp only at hrun ⊢
      split at hrun
      · rename_i hstopped
        rw [if_pos hstopped, Machine.step_of_stopped (m := m.unprobed) hstopped rfl]
        rfl
      · rename_i hne
        rw [if_neg hne, Machine.resumed_of_running (m := m) hrun]
        rfl
    exact ⟨rfl, hmachine.symm⟩

/-- **Sessions of a client that only looks.** The machine goes on at every point of the session like the
same machine without a debugger exactly if it was running before the client came and no stop disturbs
it, and then all that can be seen of it is the same after each step and each raise. -/
theorem session_transparent_iff (m : Machine) (s : Gdb.Server) (address : String)
    (events : List Event)
    (hsession : ∀ packet ∈
      (Gdb.Reader.idle.feedAll (events.flatMap Event.sent)).2.filterMap Gdb.Arrival.packet?,
      Gdb.isHarmless packet) :
    ((∀ n, Mirrors ((attended m s address).after (events.take n))
        ((unattended m).after ((attended m s address).effective (events.take n)))) ↔
      (unattended m).machine.run = .running ∧ (attended m s address).undisturbed events = true) ∧
    ((unattended m).machine.run = .running → (attended m s address).undisturbed events = true →
      (attended m s address).trace events =
        (unattended m).trace ((attended m s address).effective events)) := by
  have hd := attended_attended m s address hsession
  have hp := plain_unattended m
  constructor
  · rw [mirrors_after_iff events hd hp, mirrors_unattended_iff]
  · intro hrun hundisturbed
    exact trace_eq events hd hp ((mirrors_unattended_iff m s address).mpr hrun) hundisturbed

/-- A core with interrupts on, at a given program. -/
def fresh (program : List UInt8) : Machine where
  model := .atmega48
  data := (Memory.zeros 256).setFlag .i true
  flash := (Memory.zeros 8).store 0 program
  codeEnd := 7
  journal := { threshold := none }
  wiring := {}

/-- The client asks for two single steps, and the core takes them. -/
def twoSteps : List Event :=
  let s : Event := .send [0x24, 0x73, 0x23, 0x37, 0x33]
  [s, .step, s, .step]

/-- Single steps over two instructions that change nothing. -/
theorem twoSteps_transparent :
    (unattended (fresh [])).machine.run = .running ∧
      (attended (fresh []) {} "").undisturbed twoSteps = true ∧
      (attended (fresh []) {} "").trace twoSteps =
        (unattended (fresh [])).trace ((attended (fresh []) {} "").effective twoSteps) := by
  have hundisturbed : (attended (fresh []) {} "").undisturbed twoSteps = true := by decide +kernel
  exact ⟨rfl, hundisturbed,
    (session_transparent_iff (fresh []) {} "" twoSteps (by decide +kernel)).2 rfl hundisturbed⟩

/-- Single steps wake a core that sleeps; without a debugger it stays behind the sleep instruction. -/
theorem twoSteps_wake_sleeper :
    (unattended (fresh [0x88, 0x95])).machine.run = .running ∧
      (∀ packet ∈
        (Gdb.Reader.idle.feedAll (twoSteps.flatMap Event.sent)).2.filterMap Gdb.Arrival.packet?,
        Gdb.isHarmless packet) ∧
      ((attended (fresh [0x88, 0x95]) {} "").trace twoSteps).map (·.program) = [2, 4] ∧
      ((unattended (fresh [0x88, 0x95])).trace
        ((attended (fresh [0x88, 0x95]) {} "").effective twoSteps)).map (·.program) = [2, 2] := by
  decide +kernel

end Bench

end AvrSim
