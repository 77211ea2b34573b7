import AvrSim.Proofs.Gdb.Transparency

/-!
# A core whose client has gone

A server without a client stays connected and lets the core run. A break still stops the core; the
server sets it running again in its turn, but then interrupts were not looked at, and one that is due is
taken an instruction later than by a core without a debugger. Nothing else tells the two apart.

* `Machine.breaksOff`: a break keeps the core from an interrupt.
* `Bench.mirrors_step_detached`: one step with the server is the step without it, unless a break does
  so.
* `Bench.detached_free_iff`: whole runs are the same exactly if no break does so.
-/

namespace AvrSim

namespace Machine

variable {m : Machine}

/-- Whether the next step stops at a break while an interrupt is due or the delay before one ends. -/
def breaksOff (m : Machine) : Bool :=
  m.run ≠ .stopped && m.tick.1.run = .stopped && m.tick.1.isDue

/-! ## Interrupts behind a break -/

theorem prompt_released (h : m.Prompt) : m.quiet.released.Prompt := by
  unfold released
  split
  · rename_i hstopped
    left
    apply h.resolve_right
    intro hterminal
    exact ne_stopped_of_isTerminal hterminal hstopped
  · exact h

/-- An interrupt that is taken shows in the cycles. -/
theorem cycle_serviceInterrupts_ne (hdelay : m.interruptDelay = false) (hdue : m.isDue = true) :
    m.serviceInterrupts.cycle ≠ m.cycle := by
  rcases ne_of_isDue hdue with hcycle | hother
  · exact hcycle
  · rw [interruptDelay_serviceInterrupts, hdelay] at hother
    exact absurd rfl hother

/-! ## What is compared -/

/-- Program counter, data space, cycles, run state and UART. -/
structure Vitals where
  program : UInt32
  data : Memory
  cycle : UInt64
  run : RunState
  uart : Uart
  deriving DecidableEq

def vitals (m : Machine) : Vitals := ⟨m.program, m.data, m.cycle, m.run, m.uart⟩

end Machine

namespace Bench

/-- A machine whose server has dropped its client. -/
def detached (m : Machine) (s : Gdb.Server) : Bench :=
  ({ machine := m } : Bench).connect (.server s.disconnect)

/-- The same machine without an instrument. -/
def alone (m : Machine) : Bench := ({ machine := m } : Bench).connect .none

/-- A bench whose server has no client. -/
def Detached (b : Bench) : Prop :=
  ∃ s, b.instrument = .server s ∧ s.connection = none ∧ s.held = false

theorem Detached.isHeld {b : Bench} (h : b.Detached) : b.isHeld = false := by
  obtain ⟨s, hs, -, hheld⟩ := h
  simp [Bench.isHeld, server?, hs, hheld]

/-! ## Events that concern the client -/

theorem next_send_of_detached {d : Bench} (h : d.Detached) (bytes : Bytes) :
    d.next (.send bytes) = d := by
  obtain ⟨m, instrument, seen⟩ := d
  obtain ⟨s, rfl, hs, hheld⟩ := h
  have hreceive : (s.receive bytes).1 = s := by simp [Gdb.Server.receive, hs]
  show (serve ⟨m, .server (s.receive bytes).1, seen⟩).1 = _
  rw [hreceive]
  exact serve_of_free hheld

theorem next_hangUp_of_detached {d : Bench} (h : d.Detached) : d.next .hangUp = d := by
  obtain ⟨m, instrument, seen⟩ := d
  obtain ⟨s, rfl, hs, hheld⟩ := h
  have hhangUp : s.hangUp = s := by
    unfold Gdb.Server.hangUp
    rw [hs, Option.map_none, ← hs]
  show (serve ⟨m, .server s.hangUp, seen⟩).1 = _
  rw [hhangUp]
  exact serve_of_free hheld

theorem next_send_of_plain {p : Bench} (hp : p.Plain) (bytes : Bytes) : p.next (.send bytes) = p := by
  obtain ⟨m, instrument, seen⟩ := p
  obtain rfl : instrument = .none := hp.instrument
  rfl

theorem next_hangUp_of_plain {p : Bench} (hp : p.Plain) : p.next .hangUp = p := by
  obtain ⟨m, instrument, seen⟩ := p
  obtain rfl : instrument = .none := hp.instrument
  rfl

/-! ## Steps -/

theorem watch_of_disconnected {s : Gdb.Server} (h : s.connection = none) (n : Note) :
    watch s n = s := by
  cases n <;> simp [watch, Gdb.Server.watch, h]

theorem watch_foldl_of_disconnected {s : Gdb.Server} (h : s.connection = none) (notes : Array Note) :
    notes.foldl watch s = s := by
  rw [← Array.foldl_toList]
  induction notes.toList with
  | nil => rfl
  | cons n notes ih => rwa [List.foldl_cons, watch_of_disconnected h]

theorem attend_of_disconnected {s : Gdb.Server} (h : s.connection = none) (m : Machine) :
    s.attend m = (s, m.released, none) := by
  simp only [Gdb.Server.attend, h]
  rfl

/-- Without a client the server lifts every stop, and does nothing else. -/
theorem step_detached {m : Machine} {s : Gdb.Server} (hs : s.connection = none)
    (hheld : s.held = false) (seen : Array Note) :
    step ⟨m, .server s, seen⟩ =
      ⟨m.tick.1.quiet.released, .server s, seen ++ m.tick.1.notes.filter isPublic⟩ := by
  have hfree (m : Machine) (seen : Array Note) : isHeld ⟨m, .server s, seen⟩ = false := hheld
  rw [step_of_free (hfree m seen), advance_fst]
  dsimp only
  rw [gather_server, watch_foldl_of_disconnected hs]
  cases hdue : m.tick.2 with
  | true =>
    rw [if_pos rfl]
    have hattend : (attend ⟨m.tick.1.quiet, .server s,
        seen ++ m.tick.1.notes.filter isPublic⟩).1 =
          ⟨m.tick.1.quiet.released, .server s, seen ++ m.tick.1.notes.filter isPublic⟩ := by
      simp only [attend, attend_of_disconnected hs]
    rw [hattend, serve_of_free (hfree _ _)]
  | false =>
    have hne : m.tick.1.quiet.run ≠ .stopped := Machine.run_tick_ne_stopped hdue
    rw [if_neg Bool.false_ne_true, serve_of_free (hfree _ _), Machine.released_of_ne hne]

theorem detached_step {d : Bench} (h : d.Detached) : d.step.Detached := by
  obtain ⟨m, instrument, seen⟩ := d
  obtain ⟨s, rfl, hs, hheld⟩ := h
  rw [step_detached hs hheld]
  exact ⟨s, rfl, hs, hheld⟩

/-- What a step leaves, in the form in which turns of a server are compared. -/
theorem Detached.goesOn {d : Bench} (h : d.Detached) :
    d.step.GoesOn
      (if d.step.isHeld then d.machine.tick.1.quiet.resumed else d.machine.tick.1.quiet.released)
      (d.seen ++ d.machine.tick.1.notes.filter isPublic) [] := by
  rw [if_neg (by simp [(detached_step h).isHeld])]
  obtain ⟨m, instrument, seen⟩ := d
  obtain ⟨s, rfl, hs, hheld⟩ := h
  rw [step_detached hs hheld]
  refine ⟨⟨s, rfl, ?_⟩, ?_, rfl⟩
  · intro c hc
    rw [hs] at hc
    cases hc
  · rw [onward_server, Gdb.Server.onward, if_neg (by simp [hheld])]

/-- A core found stopped is set running by its server, and by its own next step without one. -/
theorem mirrors_step_stopped {d p : Bench} (hd : d.Detached) (hp : p.Plain) (h : Mirrors d p)
    (hstopped : d.machine.run = .stopped) : Mirrors d.step p.step := by
  have hview := h.view hd.isHeld
  have hsame : d.machine.run = p.machine.run := congrArg (·.run) hview
  have hnotes : d.machine.tick.1.notes = d.machine.notes := by
    rw [Machine.tick_of_stopped hstopped]
    split
    · rfl
    · rfl
  have hreleased : d.machine.tick.1.quiet.released = d.machine.resumed.quiet := by
    rw [Machine.tick_of_stopped hstopped]
    split
    · exact if_pos hstopped
    · rfl
  have htick : p.machine.tick.1 = p.machine.resumed :=
    Machine.step_of_stopped (hsame.symm.trans hstopped) hp.probed
  have hgoes := hd.goesOn
  rw [if_neg (by simp [(detached_step hd).isHeld]), hreleased, hnotes] at hgoes
  rw [step_plain hp, htick]
  refine ⟨?_, ?_⟩
  · rw [hgoes.seen, h.seen, Machine.notes_of_view hview]
    rfl
  · exact hgoes.machine.trans (Machine.view_quiet (Gdb.Server.view_resumed hview))

/-- **One step** with the server is the step without it, unless a break keeps the core from an
interrupt. -/
theorem mirrors_step_detached {d p : Bench} (hd : d.Detached) (hp : p.Plain) (h : Mirrors d p) :
    Mirrors d.step p.step ↔ d.machine.breaksOff = false := by
  by_cases hstart : d.machine.run = .stopped
  -- a core found stopped executes nothing, so no break can come up
  · apply iff_of_true (mirrors_step_stopped hd hp h hstart)
    simp [Machine.breaksOff, hstart]
  have htick := view_tick_plain hp (h.view hd.isHeld) hstart
  have hgoes := hd.goesOn
  rw [h.seen] at hgoes
  rw [step_plain hp]
  by_cases hstopped : d.machine.tick.1.run = .stopped
  · rw [mirrors_of_stopped hstopped hgoes htick]
    simp [Machine.breaksOff, hstart, hstopped]
  · rw [mirrors_of_not_stopped hstopped hgoes htick]
    simp [Machine.breaksOff, hstopped, (detached_step hd).isHeld]

/-- An interrupt that a break keeps from the core shows in the cycles. -/
theorem cycle_ne_of_breaksOff {d p : Bench} (hd : d.Detached) (hp : p.Plain) (h : Mirrors d p)
    (hprompt : d.machine.Prompt) (hbreaks : d.machine.breaksOff = true) :
    d.step.machine.cycle ≠ p.step.machine.cycle := by
  simp only [Machine.breaksOff, ne_eq, Bool.and_eq_true, decide_eq_true_eq] at hbreaks
  obtain ⟨⟨hstart, hstopped⟩, hdue⟩ := hbreaks
  have htick := view_tick_plain hp (h.view hd.isHeld) hstart
  have hcaught : d.machine.tick.1.caughtUp = d.machine.tick.1.resumed.serviceInterrupts :=
    if_pos hstopped
  have hdelay : d.machine.tick.1.interruptDelay = false := by
    rcases Machine.prompt_tick hprompt with hdelay | hterminal
    · exact hdelay
    · rw [hstopped] at hterminal
      cases hterminal
  have hplain : p.step.machine.cycle = d.machine.tick.1.resumed.serviceInterrupts.cycle := by
    rw [step_plain hp, ← hcaught]
    exact congrArg (·.cycle) htick
  have hserver : d.step.machine.cycle = d.machine.tick.1.cycle := by
    obtain ⟨m, instrument, seen⟩ := d
    obtain ⟨s, rfl, hs, hheld⟩ := hd
    rw [step_detached hs hheld, Machine.released]
    split
    · rfl
    · rfl
  rw [hplain, hserver]
  exact (Machine.cycle_serviceInterrupts_ne (m := d.machine.tick.1.resumed) hdelay hdue).symm

/-! ## Schedules -/

/-- Whether an event is a step in which a break keeps the core from an interrupt. -/
def misses (b : Bench) : Event → Bool
  | .step => b.machine.breaksOff
  | _ => false

/-- Whether no event of a schedule is such a step. -/
def attentive (b : Bench) : List Event → Bool
  | [] => true
  | e :: events => !b.misses e && (b.next e).attentive events

theorem detached_next {d : Bench} (h : d.Detached) (e : Event) : (d.next e).Detached := by
  cases e with
  | step => exact detached_step h
  | raise line value =>
    rw [next_raise_of_free h.isHeld]
    obtain ⟨m, instrument, seen⟩ := d
    obtain ⟨s, rfl, hs, hheld⟩ := h
    unfold act
    dsimp only
    rw [gather_server, watch_foldl_of_disconnected hs]
    exact ⟨s, rfl, hs, hheld⟩
  | send bytes =>
    rw [next_send_of_detached h]
    exact h
  | hangUp =>
    rw [next_hangUp_of_detached h]
    exact h

theorem plain_next {p : Bench} (hp : p.Plain) (e : Event) : (p.next e).Plain := by
  cases e with
  | step => exact plain_step hp
  | raise line value =>
    rw [next_raise_of_free (isHeld_of_plain hp)]
    exact plain_raise hp line value
  | send bytes =>
    rw [next_send_of_plain hp]
    exact hp
  | hangUp =>
    rw [next_hangUp_of_plain hp]
    exact hp

theorem mirrors_next_detached {d p : Bench} (hd : d.Detached) (hp : p.Plain) (h : Mirrors d p)
    (e : Event) : Mirrors (d.next e) (p.next e) ↔ d.misses e = false := by
  cases e with
  | step => exact mirrors_step_detached hd hp h
  | raise line value =>
    apply iff_of_true _ rfl
    rw [next_raise_of_free hd.isHeld, next_raise_of_free (isHeld_of_plain hp)]
    exact mirrors_raise (hd.imp fun _ hs => hs.1) hp h hd.isHeld line value
  | send bytes =>
    apply iff_of_true _ rfl
    rw [next_send_of_detached hd, next_send_of_plain hp]
    exact h
  | hangUp =>
    apply iff_of_true _ rfl
    rw [next_hangUp_of_detached hd, next_hangUp_of_plain hp]
    exact h

theorem prompt_next {d : Bench} (hd : d.Detached) (h : d.machine.Prompt) (e : Event) :
    (d.next e).machine.Prompt := by
  cases e with
  | step =>
    have htick := Machine.prompt_tick h
    obtain ⟨m, instrument, seen⟩ := d
    obtain ⟨s, rfl, hs, hheld⟩ := hd
    dsimp only [next]
    rw [step_detached hs hheld]
    exact Machine.prompt_released htick
  | raise line value =>
    rw [next_raise_of_free hd.isHeld]
    obtain ⟨m, instrument, seen⟩ := d
    obtain ⟨s, rfl, -, -⟩ := hd
    unfold act
    dsimp only
    rw [gather_server]
    exact Machine.prompt_raise h line value
  | send bytes =>
    rw [next_send_of_detached hd]
    exact h
  | hangUp =>
    rw [next_hangUp_of_detached hd]
    exact h

/-- The runs with and without the server are alike exactly if no break keeps the core from an
interrupt. -/
theorem mirrors_after_detached_iff {d p : Bench} (hd : d.Detached) (hp : p.Plain) (h : Mirrors d p)
    (events : List Event) :
    (∀ n, Mirrors (d.after (events.take n)) (p.after (events.take n))) ↔
      d.attentive events = true := by
  induction events generalizing d p with
  | nil => simpa [after, attentive] using h
  | cons e events ih =>
    have hfirst := mirrors_next_detached hd hp h e
    have hlater (hnext : Mirrors (d.next e) (p.next e)) :=
      ih (detached_next hd e) (plain_next hp e) hnext
    simp only [attentive, Bool.and_eq_true, Bool.not_eq_true']
    constructor
    · intro hall
      have hnext : Mirrors (d.next e) (p.next e) := hall 1
      exact ⟨hfirst.mp hnext, (hlater hnext).mp fun n => hall (n + 1)⟩
    · rintro ⟨hnow, hthen⟩ n
      cases n with
      | zero => exact h
      | succ n => exact (hlater (hfirst.mpr hnow)).mpr hthen n

theorem vitals_of_mirrors {d p : Bench} (hd : d.Detached) (h : Mirrors d p) :
    d.machine.vitals = p.machine.vitals := by
  have hvitals := congrArg Machine.vitals (h.view hd.isHeld)
  exact hvitals

theorem detached_after {d : Bench} (h : d.Detached) (events : List Event) :
    (d.after events).Detached := by
  induction events generalizing d with
  | nil => exact h
  | cons e events ih => exact ih (detached_next h e)

/-- Runs that cannot be told apart by what is compared are alike. -/
theorem attentive_of_vitals {d p : Bench} (hd : d.Detached) (hp : p.Plain) (h : Mirrors d p)
    (hprompt : d.machine.Prompt) (events : List Event)
    (hvitals : ∀ n, (d.after (events.take n)).machine.vitals =
      (p.after (events.take n)).machine.vitals) :
    d.attentive events = true := by
  induction events generalizing d p with
  | nil => rfl
  | cons e events ih =>
    -- up to here the runs are alike, so an interrupt that is missed now shows after this very event
    have hnow : d.misses e = false := by
      cases e with
      | step =>
        apply Bool.eq_false_iff.mpr
        intro hbreaks
        apply cycle_ne_of_breaksOff hd hp h hprompt hbreaks
        exact congrArg (·.cycle) (hvitals 1)
      | raise line value => rfl
      | send bytes => rfl
      | hangUp => rfl
    have hnext := (mirrors_next_detached hd hp h e).mpr hnow
    have hlater := ih (detached_next hd e) (plain_next hp e) hnext (prompt_next hd hprompt e)
      fun n => hvitals (n + 1)
    simp [attentive, hnow, hlater]

/-! ## A server that has lost its client -/

theorem detached_detached (m : Machine) (s : Gdb.Server) : (detached m s).Detached :=
  ⟨s.disconnect, rfl, rfl, rfl⟩

theorem plain_alone (m : Machine) : (alone m).Plain := ⟨rfl, rfl⟩

theorem mirrors_alone (m : Machine) (s : Gdb.Server) : Mirrors (detached m s) (alone m) := ⟨rfl, rfl⟩

/-- **Running on without a client.** A machine whose server has lost its client goes on like the same
machine without a debugger exactly if no break keeps the core from an interrupt; then program counter,
data space, cycles, run state and UART are the same after each event, and only then if the core was not
left in the delay before an interrupt. -/
theorem detached_free_iff (m : Machine) (s : Gdb.Server) (events : List Event) :
    ((∀ n, Mirrors ((detached m s).after (events.take n)) ((alone m).after (events.take n))) ↔
      (detached m s).attentive events = true) ∧
    ((detached m s).attentive events = true →
      ∀ n, ((detached m s).after (events.take n)).machine.vitals =
        ((alone m).after (events.take n)).machine.vitals) ∧
    (m.interruptDelay = false →
      (∀ n, ((detached m s).after (events.take n)).machine.vitals =
        ((alone m).after (events.take n)).machine.vitals) →
      (detached m s).attentive events = true) := by
  have hd := detached_detached m s
  have hp := plain_alone m
  have h := mirrors_alone m s
  have hiff := mirrors_after_detached_iff hd hp h events
  refine ⟨hiff, ?_, ?_⟩
  · intro hattentive n
    exact vitals_of_mirrors (detached_after hd _) (hiff.mpr hattentive n)
  · intro hdelay hvitals
    exact attentive_of_vitals hd hp h (.inl hdelay) events hvitals

/-- Steps over a break and on. -/
def overBreak : List Event := [.step, .step, .step]

/-- With no interrupt due neither the break nor a breakpoint behind it is noticed. -/
theorem overBreak_free :
    let s : Gdb.Server := { points := { breakpoints := [2] } }
    (detached (fresh [0x98, 0x95]) s).attentive overBreak = true ∧
      (fresh [0x98, 0x95]).interruptDelay = false ∧
      ∀ n, ((detached (fresh [0x98, 0x95]) s).after (overBreak.take n)).machine.vitals =
        ((alone (fresh [0x98, 0x95])).after (overBreak.take n)).machine.vitals := by
  intro s
  have hattentive : (detached (fresh [0x98, 0x95]) s).attentive overBreak = true := by decide +kernel
  exact ⟨hattentive, rfl, (detached_free_iff (fresh [0x98, 0x95]) s overBreak).2.1 hattentive⟩

/-- A core at a break whose UART asks for a byte to send. -/
def breaker : Machine := { fresh [0x98, 0x95] with data := (fresh []).data.set 0xC1 0x20 }

/-- The interrupt is taken at once without a debugger; under a server without a client the core goes on
behind the break. -/
theorem breaker_delayed :
    breaker.interruptDelay = false ∧
      ((detached breaker {}).after [.step]).machine.program = 2 ∧
      ((detached breaker {}).after [.step]).machine.cycle = 1 ∧
      ((alone breaker).after [.step]).machine.program = 38 ∧
      ((alone breaker).after [.step]).machine.cycle = 5 := by
  decide +kernel

end Bench

end AvrSim
