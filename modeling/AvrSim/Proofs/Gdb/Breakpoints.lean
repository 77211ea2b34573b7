import AvrSim.Proofs.Gdb.Reach
import AvrSim.Proofs.Gdb.Transparency

/-!
# Breakpoints that are run over

A server looks for breakpoints in its turn after an instruction. A core that sleeps executes none, so
when an interrupt wakes it there is no turn, and a breakpoint at the interrupt's vector is run over. It
is the only way: however else the core gets to a breakpoint of a client, and whatever the client and the
lines do meanwhile, the server has stopped it there.

* `Gdb.Server.attend_cases`: a core that the server lets go is not at a breakpoint of its client.
* `Bench.woken_of_advance`: what a step must have been that ends at a breakpoint and is not stopped.
* `Bench.guarded_next`, `Bench.guarded_after`: what holds of one event and of a schedule.
* `Bench.runs_over_iff`: a breakpoint is run over exactly if an interrupt woke the core.
-/

namespace AvrSim

/-! ## Steps that end with a running core -/

namespace Machine

/-- A core that sleeps is woken by the interrupt that is due. -/
theorem vector_of_sleeping {m : Machine} (hsleeping : m.run = .sleeping)
    (hrun : m.tick.1.run = .running) :
    ∃ vector, m.dueVector? = some vector ∧
      m.tick.1.program = UInt32.ofNat (vector * m.model.vectorSize) := by
  rw [tick_of_sleeping hsleeping, serviceInterrupts_eq] at hrun ⊢
  dsimp only at hrun ⊢
  cases hdue : m.dueVector? with
  | none =>
    have hdue' : ({ m with cycle := m.cycle + 1 } : Machine).dueVector? = none := hdue
    rw [hdue'] at hrun
    exact absurd (hsleeping.symm.trans hrun) nofun
  | some vector =>
    have hdue' : ({ m with cycle := m.cycle + 1 } : Machine).dueVector? = some vector := hdue
    refine ⟨vector, rfl, ?_⟩
    rw [hdue']
    dsimp only
    have hmodel := (access_stackReturn { m with cycle := m.cycle + 1 } vector).model
    rw [enterInterrupt_eq]
    generalize stackReturn vector _ = m' at hmodel
    show UInt32.ofNat (vector * m'.model.vectorSize) = _
    rw [hmodel]

end Machine

/-! ## The server's turn -/

namespace Gdb.Server

/-- The server stops the core, has no client to tell, or finds it at none of its breakpoints. -/
theorem attend_cases (s : Server) (m : Machine) :
    (s.attend m).1.held = true ∨ (s.attend m).1.connection = none ∨
      (s.attend m).1.points.breakpoints.contains (s.attend m).2.1.program = false := by
  unfold attend
  split
  · rename_i hnone
    exact .inr (.inl hnone)
  · rename_i c _
    split
    · exact .inl rfl
    · split
      · exact .inl rfl
      · generalize s.pollInterrupt c m = result
        obtain ⟨interrupted, s', m'⟩ := result
        dsimp only
        split
        · exact .inl rfl
        · split
          · exact .inl rfl
          · rename_i hpoint
            exact .inr (.inr (Bool.eq_false_iff.mpr hpoint))

theorem points_watch (s : Server) (address : UInt16) (isWrite : Bool) :
    (s.watch address isWrite).points = s.points := by
  unfold watch
  split
  · rfl
  · rfl

theorem receive_spec (s : Server) (bytes : Bytes) :
    (s.receive bytes).1.held = s.held ∧ (s.receive bytes).1.points = s.points ∧
      (s.receive bytes).1.connection.isSome = s.connection.isSome := by
  unfold receive
  split
  · rename_i hnone
    exact ⟨rfl, rfl, rfl⟩
  · rename_i c hc
    exact ⟨rfl, rfl, by rw [hc]; rfl⟩

end Gdb.Server

namespace Bench

/-! ## Histories -/

/-- The bench from which the core took its last step, after an event. A core that is held takes none. -/
def steppedFrom (b : Bench) (last : Option Bench) : Event → Option Bench
  | .step => if b.isHeld then last else some b
  | _ => last

/-- The bench from which the core took its last step, after a schedule. -/
def lastStep (b : Bench) (last : Option Bench) : List Event → Option Bench
  | [] => last
  | e :: events => (b.next e).lastStep (b.steppedFrom last e) events

/-- Whether the server has held the session since the core took its last step. It has if that step ended
with a stop, and it does from when the client came. -/
def stoppedSince (b : Bench) (events : List Event) : Bool :=
  match b.lastStep none events with
  | none => true
  | some before => before.advance.1.isHeld

/-- Whether the server has a client that wants the core to stop where it is. -/
def breaks (b : Bench) : Bool :=
  b.server?.any fun s => s.connection.isSome && s.points.breakpoints.contains b.machine.program

/-- An interrupt woke the core of `before`, and the core of `b` is at its vector. -/
structure Woken (before b : Bench) : Prop where
  sleeping : before.machine.run = .sleeping
  vector : ∃ vector, before.machine.dueVector? = some vector ∧
    b.machine.program = UInt32.ofNat (vector * before.machine.model.vectorSize)

/-! ## A step -/

theorem points_watch_foldl (notes : Array Note) (s : Gdb.Server) :
    (notes.foldl watch s).points = s.points := by
  rw [← Array.foldl_toList]
  refine List.foldlRecOn (motive := fun s' : Gdb.Server => s'.points = s.points) _ _ rfl ?_
  intro s' hs' n _
  cases n with
  | read address value => exact (Gdb.Server.points_watch s' address false).trans hs'
  | write address value => exact (Gdb.Server.points_watch s' address true).trans hs'
  | line tag value => exact hs'
  | step state => exact hs'

/-- A step that is not stopped ends at a breakpoint only if an interrupt woke the core. -/
theorem woken_of_advance {m : Machine} {s : Gdb.Server} {seen : Array Note}
    (hprobed : m.probed = true) {b : Bench} (hb : b = (advance ⟨m, .server s, seen⟩).1)
    (hheld : b.isHeld = false) (hrun : b.machine.run = .running) (hbreaks : b.breaks = true) :
    Woken ⟨m, .server s, seen⟩ b := by
  rw [advance_fst] at hb
  dsimp only at hb
  rw [gather_server] at hb
  generalize m.tick.1.notes.foldl watch s = s' at hb
  split at hb
  · -- in its turn the server would have found the breakpoint
    subst hb
    exfalso
    have hfree : (s'.attend m.tick.1.quiet).1.held = false := hheld
    have hpoint : ((s'.attend m.tick.1.quiet).1.connection.isSome &&
        (s'.attend m.tick.1.quiet).1.points.breakpoints.contains
          (s'.attend m.tick.1.quiet).2.1.program) = true := hbreaks
    obtain hstop | hnone | hother := Gdb.Server.attend_cases s' m.tick.1.quiet
    · rw [hstop] at hfree
      cases hfree
    · rw [hnone] at hpoint
      cases hpoint
    · rw [hother, Bool.and_false] at hpoint
      cases hpoint
  · rename_i hdue
    subst hb
    have hrun' : m.tick.1.run = .running := hrun
    by_cases hsleeping : m.run = .sleeping
    · exact ⟨hsleeping, Machine.vector_of_sleeping hsleeping hrun'⟩
    · apply absurd _ hdue
      apply (Machine.tick_snd_iff hprobed).mpr ⟨hsleeping, _⟩
      rw [hrun']
      rfl

/-! ## Events in between -/

theorem breaks_server (m : Machine) (s : Gdb.Server) (seen : Array Note) :
    breaks ⟨m, .server s, seen⟩ =
      (s.connection.isSome && s.points.breakpoints.contains m.program) := rfl

/-- The core of `b'` is where that of `b` was, under the same server, and runs only if that did. -/
structure StandsStill (b b' : Bench) : Prop where
  held : b'.isHeld = b.isHeld
  breaks : b'.breaks = b.breaks
  program : b'.machine.program = b.machine.program
  run : b'.machine.run = .running → b.machine.run = .running

theorem standsStill_next {m : Machine} {s : Gdb.Server} {seen : Array Note} (hfree : s.held = false)
    {e : Event} (he : e ≠ .step) : StandsStill ⟨m, .server s, seen⟩ (next ⟨m, .server s, seen⟩ e) := by
  cases e with
  | step => exact absurd rfl he
  | raise line value =>
    have haccess := Machine.access_raise m line value
    have hnext : next ⟨m, .server s, seen⟩ (.raise line value) =
        gather ⟨m.raise line value, .server s, seen⟩ := if_neg (by simp [isHeld_server, hfree])
    obtain ⟨hconnection, hheld⟩ := watch_foldl (m.raise line value).notes s
    have hpoints := points_watch_foldl (m.raise line value).notes s
    rw [hnext, gather_server]
    refine ⟨hheld, ?_, haccess.program, ?_⟩
    · rw [breaks_server, breaks_server, hconnection, hpoints]
      show (_ && s.points.breakpoints.contains (m.raise line value).program) = _
      rw [haccess.program]
    · intro hrun
      obtain hsame | hterminal := haccess.run
      · exact hsame.symm.trans hrun
      · have hrun' : (m.raise line value).run = .running := hrun
        rw [hrun'] at hterminal
        cases hterminal
  | send bytes =>
    obtain ⟨hheld, hpoints, hconnection⟩ := Gdb.Server.receive_spec s bytes
    have hnext : next ⟨m, .server s, seen⟩ (.send bytes) =
        ⟨m, .server (s.receive bytes).1, seen⟩ :=
      serve_of_free (b := ⟨m, .server (s.receive bytes).1, seen⟩) (hheld.trans hfree)
    rw [hnext]
    refine ⟨hheld, ?_, rfl, fun hrun => hrun⟩
    rw [breaks_server, breaks_server, hconnection, hpoints]
  | hangUp =>
    have hnext : next ⟨m, .server s, seen⟩ .hangUp = ⟨m, .server s.hangUp, seen⟩ :=
      serve_of_free (b := ⟨m, .server s.hangUp, seen⟩) hfree
    rw [hnext]
    refine ⟨rfl, ?_, rfl, fun hrun => hrun⟩
    rw [breaks_server, breaks_server]
    show ((s.connection.map _).isSome && _) = _
    rw [Option.isSome_map]
    rfl

/-! ## Schedules -/

/-- A bench with a server, and the step that the core took last: if it was not stopped then, no client
holds it since, and only an interrupt that woke it can have brought it to a breakpoint. -/
structure Guarded (last : Option Bench) (b : Bench) : Prop where
  server : ∃ s, b.instrument = .server s
  probed : b.machine.probed = true
  stepped : ∀ before, last = some before → before.isHeld = false
  free : ∀ before, last = some before → before.advance.1.isHeld = false → b.isHeld = false
  woken : ∀ before, last = some before → before.advance.1.isHeld = false →
    b.machine.run = .running → b.breaks = true → Woken before b

/-- No event takes the server away. -/
theorem server_next {b : Bench} (hserver : ∃ s, b.instrument = .server s)
    (hprobed : b.machine.probed = true) (e : Event) :
    (∃ s, (b.next e).instrument = .server s) ∧ (b.next e).machine.probed = true := by
  obtain ⟨m, instrument, seen⟩ := b
  obtain ⟨s, rfl⟩ := hserver
  cases e with
  | step =>
    dsimp only [next, step]
    split
    · exact ⟨⟨s, rfl⟩, hprobed⟩
    · have htick : m.tick.1.probed = true := (Machine.probed_tick m).trans hprobed
      rw [advance_fst]
      dsimp only
      rw [gather_server]
      have hquiet : m.tick.1.quiet.probed = true := htick
      generalize m.tick.1.quiet = m' at hquiet
      split
      · refine ⟨⟨_, rfl⟩, ?_⟩
        exact ((spares_attend _).trans (spares_serve _)).machine.probed.trans hquiet
      · exact ⟨⟨_, rfl⟩, (spares_serve _).machine.probed.trans hquiet⟩
  | raise line value =>
    dsimp only [next]
    split
    · exact ⟨⟨s, rfl⟩, hprobed⟩
    · unfold act
      dsimp only
      rw [gather_server]
      exact ⟨⟨_, rfl⟩, (Machine.access_raise m line value).probed.trans hprobed⟩
  | send bytes =>
    exact ⟨⟨_, rfl⟩, (spares_receive ⟨m, .server s, seen⟩ bytes).machine.probed.trans hprobed⟩
  | hangUp => exact ⟨⟨_, rfl⟩, (spares_hangUp ⟨m, .server s, seen⟩).machine.probed.trans hprobed⟩

theorem guarded_step {last : Option Bench} {b : Bench} (h : Guarded last b)
    (hfree : b.isHeld = false) : Guarded (some b) b.step := by
  obtain ⟨hserver, hprobed⟩ := server_next h.server h.probed .step
  have hstep := step_of_free hfree
  refine ⟨hserver, hprobed, ?_, ?_, ?_⟩
  · rintro before ⟨⟩
    exact hfree
  · rintro before ⟨⟩ hgoes
    rw [hstep, serve_of_free hgoes]
    exact hgoes
  · rintro before ⟨⟩ hgoes
    rw [hstep, serve_of_free hgoes]
    intro hrun hbreaks
    obtain ⟨m, instrument, seen⟩ := b
    obtain ⟨s, rfl⟩ := h.server
    exact woken_of_advance h.probed rfl hgoes hrun hbreaks

theorem guarded_next {last : Option Bench} {b : Bench} (h : Guarded last b) (e : Event) :
    Guarded (b.steppedFrom last e) (b.next e) := by
  by_cases hstep : e = .step
  · subst hstep
    cases hheld : b.isHeld with
    | true =>
      have hlast : b.steppedFrom last .step = last := if_pos hheld
      have hnext : b.next .step = b := if_pos hheld
      rw [hlast, hnext]
      exact h
    | false =>
      have hlast : b.steppedFrom last .step = some b := if_neg (by simp [hheld])
      rw [hlast]
      exact guarded_step h hheld
  · have hlast : b.steppedFrom last e = last := by
      cases e with
      | step => exact absurd rfl hstep
      | _ => rfl
    obtain ⟨hserver, hprobed⟩ := server_next h.server h.probed e
    rw [hlast]
    -- since a step that was not stopped nobody holds the core, and it stands where the step left it
    have hstands (before : Bench) (hbefore : last = some before)
        (hgoes : before.advance.1.isHeld = false) : StandsStill b (b.next e) := by
      have hfree := h.free before hbefore hgoes
      obtain ⟨m, instrument, seen⟩ := b
      obtain ⟨s, rfl⟩ := h.server
      exact standsStill_next hfree hstep
    refine ⟨hserver, hprobed, h.stepped, ?_, ?_⟩
    · intro before hbefore hgoes
      exact (hstands before hbefore hgoes).held.trans (h.free before hbefore hgoes)
    · intro before hbefore hgoes hrun hbreaks
      have hstill := hstands before hbefore hgoes
      have hwoken := h.woken before hbefore hgoes (hstill.run hrun) (hstill.breaks.symm.trans hbreaks)
      refine ⟨hwoken.sleeping, ?_⟩
      rw [hstill.program]
      exact hwoken.vector

theorem guarded_after {last : Option Bench} {b : Bench} (h : Guarded last b) (events : List Event) :
    Guarded (b.lastStep last events) (b.after events) := by
  induction events generalizing last b with
  | nil => exact h
  | cons e events ih => exact ih (guarded_next h e)

theorem guarded_attended (m : Machine) (s : Gdb.Server) (address : String) :
    Guarded none (attended m s address) := by
  refine ⟨⟨_, rfl⟩, rfl, ?_, ?_, ?_⟩
  · intro before hbefore
    cases hbefore
  · intro before hbefore
    cases hbefore
  · intro before hbefore
    cases hbefore

theorem isHeld_gather (b : Bench) : b.gather.isHeld = b.isHeld := by
  obtain ⟨m, instrument, seen⟩ := b
  cases instrument with
  | none =>
    rw [gather_none]
    rfl
  | server s =>
    rw [gather_server]
    exact (watch_foldl m.notes s).2
  | recorder =>
    unfold gather
    split
    · rfl
    · rfl

/-- Nothing stops a core in its sleep. -/
theorem isHeld_advance_of_sleeping {b : Bench} (hfree : b.isHeld = false)
    (hsleeping : b.machine.run = .sleeping) : b.advance.1.isHeld = false := by
  have hdue : b.machine.tick.2 = false := by rw [Machine.tick_of_sleeping hsleeping]
  rw [advance_fst, hdue, if_neg Bool.false_ne_true, isHeld_gather]
  exact hfree

/-- At a breakpoint of its client a core that is about to execute was stopped just before, or an
interrupt has woken it: then, and only then, the breakpoint is run over. -/
theorem runs_over_iff (m : Machine) (s : Gdb.Server) (address : String) (events : List Event)
    (hrun : ((attended m s address).after events).machine.run = .running)
    (hbreaks : ((attended m s address).after events).breaks = true) :
    (attended m s address).stoppedSince events = false ↔
      ∃ before, (attended m s address).lastStep none events = some before ∧
        Woken before ((attended m s address).after events) := by
  have hguarded := guarded_after (guarded_attended m s address) events
  unfold stoppedSince
  cases hlast : (attended m s address).lastStep none events with
  | none => simp
  | some before =>
    constructor
    · intro hgoes
      exact ⟨before, rfl, hguarded.woken before hlast hgoes hrun hbreaks⟩
    · rintro ⟨before, ⟨⟩, hwoken⟩
      exact isHeld_advance_of_sleeping (hguarded.stepped before hlast) hwoken.sleeping

/-- The client sends a packet. -/
def packet (text : String) : Event := .send (Gdb.frame (Bytes.ofString text))

/-- The core falls through to a breakpoint behind its first instruction and is resumed there. -/
def fallThrough : List Event := [packet "Z0,2,2", packet "c", .step, packet "c"]

theorem fallThrough_stops :
    ((attended (fresh []) {} "").after fallThrough).machine.run = .running ∧
      ((attended (fresh []) {} "").after fallThrough).breaks = true ∧
      (attended (fresh []) {} "").stoppedSince fallThrough = true ∧
      ¬ ∃ before, (attended (fresh []) {} "").lastStep none fallThrough = some before ∧
        Woken before ((attended (fresh []) {} "").after fallThrough) := by
  have hrun : ((attended (fresh []) {} "").after fallThrough).machine.run = .running := by
    decide +kernel
  have hbreaks : ((attended (fresh []) {} "").after fallThrough).breaks = true := by decide +kernel
  have hstopped : (attended (fresh []) {} "").stoppedSince fallThrough = true := by decide +kernel
  refine ⟨hrun, hbreaks, hstopped, ?_⟩
  intro hwoken
  have hover := (runs_over_iff (fresh []) {} "" fallThrough hrun hbreaks).mpr hwoken
  rw [hstopped] at hover
  cases hover

/-- A core that will sleep although a byte waits whose interrupt is on. -/
def sleeper : Machine where
  model := .atmega48
  data := (((Memory.zeros 256).setSp 255).setFlag .i true).set 0xC1 0x80
  flash := (Memory.zeros 64).store 0 [0x88, 0x95]
  codeEnd := 63
  uart := { pending := [65] }
  journal := { threshold := none }
  wiring := {}

/-- The interrupt of the byte wakes the core at a breakpoint, and the core runs over it. -/
theorem sleeper_runs_over :
    let b := attended sleeper {} ""
    let events := [packet "Z0,24,2", packet "c", .step, .step]
    (b.after events).isHeld = false ∧ (b.after events).machine.run = .running ∧
      (b.after events).breaks = true ∧ b.stoppedSince events = false ∧
      (b.after events).machine.program = 36 ∧ (b.after (events ++ [.step])).machine.program = 38 := by
  decide +kernel

end Bench

end AvrSim
