import AvrSim.Bench
import AvrSim.Proofs.Gdb.Session

/-!
# Events around a machine with and without a debugger

Two benches with the same machine, one with a debug server whose client only looks and one without an
instrument, are taken through the same schedule of steps, raised lines and client bytes. While the
session is held the host waits, so only the events outside of that reach the cores.

* `Bench.Mirrors`: the machine with the debugger goes on like the other one.
* `Bench.disturbs`: the stops that change how a core goes on. The server stops a core by its run state
  and resumes it as running, which is wrong for a core that the instruction before the stop put to sleep,
  and for one that a break stopped before it looked at interrupts.
* `Bench.mirrors_next`: an event keeps the benches alike exactly if it does not disturb the core.
-/

namespace AvrSim

namespace Bench

/-! ## Schedules -/

/-- What happens around a machine: its host takes a step or raises a line, the client of its server sends
bytes or goes away. -/
inductive Event
  | step
  | raise (line : Nat) (value : UInt32)
  | send (bytes : Bytes)
  | hangUp

/-- The bytes that the client sends. -/
def Event.sent : Event → Bytes
  | send bytes => bytes
  | _ => []

/-- The bench after an event. While a server holds the session its host waits, too. -/
def next (b : Bench) : Event → Bench
  | .step => b.step
  | .raise line value => if b.isHeld then b else b.act (·.raise line value)
  | .send bytes => (b.receive bytes).1
  | .hangUp => b.hangUp

/-- Whether an event reaches the core. -/
def reaches (b : Bench) : Event → Bool
  | .step | .raise .. => !b.isHeld
  | _ => false

/-! ## Going on -/

/-- The machine as it will go on: a held session ends with the core running. -/
def onward (b : Bench) : Machine := if b.isHeld then b.machine.resumed else b.machine

/-- A bench goes on as another one: only the journal, the instrument and what was noted for it differ. -/
structure Mirrors (d p : Bench) : Prop where
  seen : d.seen = p.seen
  machine : d.onward.view false = p.machine.view false

/-- Whether an event changes how the core goes on: the server stops a core that neither runs nor was
stopped by a break, or a break stops it when an interrupt is due or the delay before one ends. -/
def disturbs (b : Bench) : Event → Bool
  | .step =>
    let m := b.machine.tick.1
    !b.isHeld && m.run ≠ .running && if m.run = .stopped then m.isDue else b.advance.1.isHeld
  | _ => false

/-- A bench whose server has a client that only looks; `rest` is what the client will still send. -/
structure Attended (b : Bench) (rest : Bytes) : Prop where
  server : ∃ s, b.instrument = .server s ∧ s.Harmless rest
  free : b.isHeld = false → b.machine.run ≠ .stopped

/-- A bench without an instrument. -/
structure Plain (b : Bench) : Prop where
  instrument : b.instrument = .none
  probed : b.machine.probed = false

end Bench

namespace Machine

/-- The machine without notes. -/
def quiet (m : Machine) : Machine := { m with notes := #[] }

theorem quiet_of_notes {m : Machine} (h : m.notes = #[]) : m.quiet = m := by
  unfold quiet
  rw [← h]

theorem view_quiet {m m' : Machine} (h : m.view false = m'.view false) :
    m.quiet.view false = m'.quiet.view false := congrArg quiet h

theorem notes_of_view {m m' : Machine} (h : m.view false = m'.view false) :
    m.notes.filter Bench.isPublic = m'.notes.filter Bench.isPublic := congrArg (·.notes) h

end Machine

namespace Bench

/-! ## Gathering -/

theorem gather_none (m : Machine) (seen : Array Note) :
    gather ⟨m, .none, seen⟩ = ⟨m.quiet, .none, seen ++ m.notes.filter isPublic⟩ := by
  unfold gather
  split
  · rename_i hempty
    have hnotes : m.notes = #[] := by simpa using hempty
    rw [Machine.quiet_of_notes hnotes, hnotes]
    simp
  · rfl

theorem gather_server (m : Machine) (s : Gdb.Server) (seen : Array Note) :
    gather ⟨m, .server s, seen⟩ =
      ⟨m.quiet, .server (m.notes.foldl watch s), seen ++ m.notes.filter isPublic⟩ := by
  unfold gather
  split
  · rename_i hempty
    have hnotes : m.notes = #[] := by simpa using hempty
    rw [Machine.quiet_of_notes hnotes, hnotes]
    simp
  · rfl

theorem watch_foldl (notes : Array Note) (s : Gdb.Server) :
    (notes.foldl watch s).connection = s.connection ∧ (notes.foldl watch s).held = s.held := by
  have hone (s : Gdb.Server) (n : Note) :
      (watch s n).connection = s.connection ∧ (watch s n).held = s.held := by
    have hserver (address : UInt16) (isWrite : Bool) :
        (s.watch address isWrite).connection = s.connection ∧
          (s.watch address isWrite).held = s.held := by
      unfold Gdb.Server.watch
      split
      · exact ⟨rfl, rfl⟩
      · exact ⟨rfl, rfl⟩
    cases n with
    | read address value => exact hserver address false
    | write address value => exact hserver address true
    | line tag value => exact ⟨rfl, rfl⟩
    | step state => exact ⟨rfl, rfl⟩
  rw [← Array.foldl_toList]
  induction notes.toList generalizing s with
  | nil => exact ⟨rfl, rfl⟩
  | cons n notes ih =>
    obtain ⟨hconnection, hheld⟩ := ih (watch s n)
    exact ⟨hconnection.trans (hone s n).1, hheld.trans (hone s n).2⟩

/-! ## Steps -/

theorem isHeld_server (m : Machine) (s : Gdb.Server) (seen : Array Note) :
    isHeld ⟨m, .server s, seen⟩ = s.held := rfl

theorem onward_server (m : Machine) (s : Gdb.Server) (seen : Array Note) :
    onward ⟨m, .server s, seen⟩ = s.onward m := rfl

theorem serve_of_free {b : Bench} (h : b.isHeld = false) : b.serve.1 = b := by
  obtain ⟨m, instrument, seen⟩ := b
  cases instrument with
  | none => rfl
  | recorder => rfl
  | server s =>
    have hserve : s.serve m = (s, m, []) := if_neg (Bool.eq_false_iff.mp h)
    show (⟨(s.serve m).2.1, .server (s.serve m).1, seen⟩ : Bench) = _
    rw [hserve]

theorem step_of_free {b : Bench} (h : b.isHeld = false) : b.step = b.advance.1.serve.1 :=
  if_neg (by simp [h])

theorem next_raise_of_free {b : Bench} (h : b.isHeld = false) (line : Nat) (value : UInt32) :
    b.next (.raise line value) = b.act (·.raise line value) := if_neg (by simp [h])

/-- Outside of a held session it is the machine itself that goes on. -/
theorem Mirrors.view {d p : Bench} (h : Mirrors d p) (hfree : d.isHeld = false) :
    d.machine.view false = p.machine.view false := by
  have honward : d.onward = d.machine := if_neg (by simp [hfree])
  exact honward ▸ h.machine

theorem step_plain {p : Bench} (h : p.Plain) :
    p.step = ⟨p.machine.tick.1.quiet, .none, p.seen ++ p.machine.tick.1.notes.filter isPublic⟩ := by
  obtain ⟨m, instrument, seen⟩ := p
  obtain rfl : instrument = .none := h.instrument
  have hdue := Machine.tick_snd_of_unprobed h.probed
  show (advance ⟨m, .none, seen⟩).1.serve.1 = _
  have hadvance : (advance ⟨m, .none, seen⟩).1 = gather ⟨m.tick.1, .none, seen⟩ := by
    unfold advance
    dsimp only
    rw [hdue]
    rfl
  rw [hadvance, gather_none]
  rfl

/-- What serving and the server's turn leave: a client that only looks, and a machine that goes on like
`m` except for its journal and its instrument. -/
structure GoesOn (b : Bench) (m : Machine) (seen : Array Note) (rest : Bytes) : Prop where
  server : ∃ s, b.instrument = .server s ∧ s.Harmless rest
  machine : b.onward.view false = m.view false
  seen : b.seen = seen

theorem GoesOn.attended {b : Bench} {m : Machine} {seen : Array Note} {rest : Bytes}
    (h : b.GoesOn m seen rest) (hrun : m.run ≠ .stopped) : b.Attended rest := by
  refine ⟨h.server, fun hfree => ?_⟩
  have hmachine : b.machine.view false = m.view false := by
    have honward : b.onward = b.machine := if_neg (by simp [hfree])
    exact honward ▸ h.machine
  have hsame : b.machine.run = m.run := congrArg (·.run) hmachine
  rw [hsame]
  exact hrun

theorem goesOn_serve {b : Bench} {m : Machine} {seen : Array Note} {rest : Bytes}
    (h : b.GoesOn m seen rest) : b.serve.1.GoesOn m seen rest := by
  obtain ⟨machine, instrument, noted⟩ := b
  obtain ⟨s, rfl, hharmless⟩ := h.server
  refine ⟨⟨_, rfl, Gdb.Server.harmless_serve machine hharmless⟩, ?_, h.seen⟩
  exact (Gdb.Server.view_onward_serve machine hharmless).trans h.machine

theorem advance_fst (b : Bench) :
    b.advance.1 =
      if b.machine.tick.2 then (gather ⟨b.machine.tick.1, b.instrument, b.seen⟩).attend.1
      else gather ⟨b.machine.tick.1, b.instrument, b.seen⟩ := by
  unfold advance
  dsimp only
  split
  · rfl
  · rfl

theorem goesOn_advance {b : Bench} {rest : Bytes} (h : b.Attended rest) (hfree : b.isHeld = false) :
    b.advance.1.GoesOn
      (if b.advance.1.isHeld then b.machine.tick.1.quiet.resumed else b.machine.tick.1.quiet.released)
      (b.seen ++ b.machine.tick.1.notes.filter isPublic) rest := by
  obtain ⟨m, instrument, seen⟩ := b
  obtain ⟨s, rfl, hharmless⟩ := h.server
  have hrun : m.run ≠ .stopped := h.free hfree
  obtain ⟨hconnection, hheld⟩ := watch_foldl m.tick.1.notes s
  have hheld' : (m.tick.1.notes.foldl watch s).held = false := hheld.trans hfree
  have hharmless' := Gdb.Server.harmless_of_connection hharmless hconnection
  rw [advance_fst]
  dsimp only
  rw [gather_server]
  generalize m.tick.1.notes.foldl watch s = s' at hheld' hharmless'
  cases hdue : m.tick.2 with
  | true =>
    refine ⟨⟨_, rfl, Gdb.Server.harmless_attend _ hharmless'⟩, ?_, rfl⟩
    exact Gdb.Server.view_onward_attend s' m.tick.1.quiet hheld'
  | false =>
    have hne : m.tick.1.quiet.run ≠ .stopped := Machine.run_tick_ne_stopped hdue
    refine ⟨⟨_, rfl, hharmless'⟩, ?_, rfl⟩
    simp only [Bool.false_eq_true, if_false]
    rw [onward_server, isHeld_server, hheld', Gdb.Server.onward, hheld']
    simp only [Bool.false_eq_true, if_false]
    rw [Machine.released_of_ne hne]

theorem attended_step {b : Bench} {rest : Bytes} (h : b.Attended rest) (hfree : b.isHeld = false) :
    b.step.Attended rest := by
  rw [step_of_free hfree]
  refine (goesOn_serve (goesOn_advance h hfree)).attended ?_
  split
  · nofun
  · exact Machine.run_released_ne_stopped _

theorem view_tick_plain {p : Bench} (hp : p.Plain) {m : Machine}
    (h : m.view false = p.machine.view false) (hrun : m.run ≠ .stopped) :
    p.machine.tick.1.view false = m.tick.1.caughtUp.view false := by
  have hsame : m.run = p.machine.run := congrArg (·.run) h
  have hrun' : p.machine.run ≠ .stopped := hsame ▸ hrun
  have hne : p.machine.tick.1.run ≠ .stopped := by
    intro hstopped
    exact absurd (hp.probed.symm.trans (Machine.probed_of_tick hrun' hstopped).1) nofun
  have hplain := Machine.view_tick_unwatched hrun'
  rw [Machine.caughtUp_of_ne hne] at hplain
  rw [← hplain, ← h]
  exact Machine.view_tick_unwatched hrun

section Turn

variable {b : Bench} {m m' : Machine} {held : Bool} {seen : Array Note} {rest : Bytes}

/-- After a break the core goes on without a look at interrupts. -/
theorem mirrors_of_stopped (hstopped : m.run = .stopped)
    (h : b.GoesOn (if held then m.quiet.resumed else m.quiet.released)
      (seen ++ m.notes.filter isPublic) rest)
    (htick : m'.view false = m.caughtUp.view false) :
    Mirrors b ⟨m'.quiet, .none, seen ++ m'.notes.filter isPublic⟩ ↔ m.isDue = false := by
  have hcaught : m.caughtUp = m.resumed.serviceInterrupts := if_pos hstopped
  rw [hcaught] at htick
  have hreleased : m.quiet.released = m.quiet.resumed := if_pos hstopped
  rw [hreleased, ite_self] at h
  constructor
  · intro hmirrors
    have hview := (h.machine.symm.trans hmirrors.machine).trans (Machine.view_quiet htick)
    cases hdue : m.isDue with
    | false => rfl
    | true =>
      have hcycle : m.cycle = m.resumed.serviceInterrupts.cycle := congrArg (·.cycle) hview
      have hdelay : m.interruptDelay = m.resumed.serviceInterrupts.interruptDelay :=
        congrArg (·.interruptDelay) hview
      obtain hne | hne := Machine.ne_of_isDue (m := m.resumed) hdue
      · exact absurd hcycle.symm hne
      · exact absurd hdelay.symm hne
  · intro hidle
    rw [Machine.serviceInterrupts_of_not_isDue (m := m.resumed) hidle] at htick
    refine ⟨?_, h.machine.trans (Machine.view_quiet htick).symm⟩
    rw [h.seen, Machine.notes_of_view htick]
    rfl

/-- After any other instruction the core goes on as it was, unless the server stops it. -/
theorem mirrors_of_not_stopped (hstopped : m.run ≠ .stopped)
    (h : b.GoesOn (if held then m.quiet.resumed else m.quiet.released)
      (seen ++ m.notes.filter isPublic) rest)
    (htick : m'.view false = m.caughtUp.view false) :
    Mirrors b ⟨m'.quiet, .none, seen ++ m'.notes.filter isPublic⟩ ↔
      m.run = .running ∨ held = false := by
  rw [Machine.caughtUp_of_ne hstopped] at htick
  rw [Machine.released_of_ne (m := m.quiet) hstopped] at h
  have hseen : b.seen = seen ++ m'.notes.filter isPublic := by
    rw [h.seen, Machine.notes_of_view htick]
  have hquiet := Machine.view_quiet htick
  cases held with
  | false => exact ⟨fun _ => .inr rfl, fun _ => ⟨hseen, h.machine.trans hquiet.symm⟩⟩
  | true =>
    constructor
    · intro hmirrors
      have hview := (h.machine.symm.trans hmirrors.machine).trans hquiet
      exact .inl (congrArg (·.run) hview).symm
    · rintro (hrunning | hheld)
      · have hresumed : m.quiet.resumed = m.quiet := Machine.resumed_of_running hrunning
        exact ⟨hseen, h.machine.trans ((congrArg _ hresumed).trans hquiet.symm)⟩
      · cases hheld

end Turn

theorem mirrors_step {d p : Bench} {rest : Bytes} (hd : d.Attended rest) (hp : p.Plain)
    (h : Mirrors d p) (hfree : d.isHeld = false) :
    Mirrors d.step p.step ↔ d.disturbs .step = false := by
  have htick := view_tick_plain hp (h.view hfree) (hd.free hfree)
  have hgoes := goesOn_serve (goesOn_advance hd hfree)
  rw [← step_of_free hfree, h.seen] at hgoes
  rw [step_plain hp]
  simp only [disturbs, hfree, Bool.not_false, Bool.true_and]
  by_cases hstopped : d.machine.tick.1.run = .stopped
  · rw [mirrors_of_stopped hstopped hgoes htick]
    simp [hstopped]
  · rw [mirrors_of_not_stopped hstopped hgoes htick]
    by_cases hrunning : d.machine.tick.1.run = .running
    · simp [hrunning]
    · simp [hstopped, hrunning]

theorem plain_step {p : Bench} (h : p.Plain) : p.step.Plain := by
  rw [step_plain h]
  exact ⟨rfl, (Machine.probed_tick p.machine).trans h.probed⟩

/-! ## Raised lines -/

theorem mirrors_raise {d p : Bench} (hserver : ∃ s, d.instrument = .server s) (hp : p.Plain)
    (h : Mirrors d p) (hfree : d.isHeld = false) (line : Nat) (value : UInt32) :
    Mirrors (d.act (·.raise line value)) (p.act (·.raise line value)) := by
  obtain ⟨m, instrument, seen⟩ := d
  obtain ⟨s, rfl⟩ := hserver
  obtain ⟨m', instrument', seen'⟩ := p
  obtain rfl : instrument' = .none := hp.instrument
  obtain rfl : seen = seen' := h.seen
  have hview : m.view false = m'.view false := h.view hfree
  have hraise : (m.raise line value).view false = (m'.raise line value).view false := by
    rw [← Machine.view_raise, ← Machine.view_raise, hview]
  have hheld := (watch_foldl (m.raise line value).notes s).2
  unfold act
  dsimp only
  rw [gather_server, gather_none]
  refine ⟨?_, ?_⟩
  · rw [Machine.notes_of_view hraise]
  · rw [onward_server, Gdb.Server.onward, if_neg (by rw [hheld]; exact Bool.eq_false_iff.mp hfree)]
    exact Machine.view_quiet hraise

theorem attended_raise {d : Bench} {rest : Bytes} (hd : d.Attended rest) (hfree : d.isHeld = false)
    (line : Nat) (value : UInt32) : (d.act (·.raise line value)).Attended rest := by
  obtain ⟨m, instrument, seen⟩ := d
  obtain ⟨s, rfl, hharmless⟩ := hd.server
  have hconnection := (watch_foldl (m.raise line value).notes s).1
  unfold act
  dsimp only
  rw [gather_server]
  refine ⟨⟨_, rfl, Gdb.Server.harmless_of_connection hharmless hconnection⟩, fun _ => ?_⟩
  obtain hsame | hterminal := (Machine.access_raise m line value).run
  · show (m.raise line value).run ≠ .stopped
    rw [hsame]
    exact hd.free hfree
  · exact Machine.ne_stopped_of_isTerminal hterminal

theorem plain_raise {p : Bench} (h : p.Plain) (line : Nat) (value : UInt32) :
    (p.act (·.raise line value)).Plain := by
  obtain ⟨m, instrument, seen⟩ := p
  obtain rfl : instrument = .none := h.instrument
  unfold act
  dsimp only
  rw [gather_none]
  exact ⟨rfl, (Machine.access_raise m line value).probed.trans h.probed⟩

/-! ## The client -/

theorem run_onward_ne_stopped {b : Bench} {rest : Bytes} (h : b.Attended rest) :
    b.onward.run ≠ .stopped := by
  unfold onward
  split
  · nofun
  · rename_i hfree
    exact h.free (Bool.eq_false_iff.mpr hfree)

theorem goesOn_send {b : Bench} {bytes rest : Bytes} (h : b.Attended (bytes ++ rest)) :
    (b.receive bytes).1.GoesOn b.onward b.seen rest := by
  obtain ⟨m, instrument, seen⟩ := b
  obtain ⟨s, rfl, hharmless⟩ := h.server
  have hheld : (s.receive bytes).1.held = s.held := by
    unfold Gdb.Server.receive
    split
    · rfl
    · rfl
  refine goesOn_serve (b := ⟨m, .server (s.receive bytes).1, seen⟩) ?_
  refine ⟨⟨_, rfl, Gdb.Server.harmless_receive hharmless⟩, ?_, rfl⟩
  rw [onward_server, onward_server, Gdb.Server.onward, Gdb.Server.onward, hheld]

theorem goesOn_hangUp {b : Bench} {rest : Bytes} (h : b.Attended rest) :
    b.hangUp.GoesOn b.onward b.seen rest := by
  obtain ⟨m, instrument, seen⟩ := b
  obtain ⟨s, rfl, hharmless⟩ := h.server
  refine goesOn_serve (b := ⟨m, .server s.hangUp, seen⟩) ?_
  exact ⟨⟨_, rfl, Gdb.Server.harmless_hangUp hharmless⟩, rfl, rfl⟩

theorem GoesOn.mirrors {b d p : Bench} {rest : Bytes} (h : b.GoesOn d.onward d.seen rest)
    (hmirrors : Mirrors d p) : Mirrors b p :=
  ⟨h.seen.trans hmirrors.seen, h.machine.trans hmirrors.machine⟩

/-! ## Events and schedules -/

/-- The other bench after an event: it takes part in what reaches the core. -/
def follow (d p : Bench) (e : Event) : Bench := if d.reaches e then p.next e else p

theorem attended_next {d : Bench} {e : Event} {rest : Bytes} (hd : d.Attended (e.sent ++ rest)) :
    (d.next e).Attended rest := by
  cases e with
  | step =>
    cases hheld : d.isHeld with
    | true =>
      have hstep : d.step = d := if_pos hheld
      show d.step.Attended rest
      rw [hstep]
      exact hd
    | false => exact attended_step hd hheld
  | raise line value =>
    dsimp only [next]
    split
    · exact hd
    · rename_i hfree
      exact attended_raise hd (Bool.eq_false_iff.mpr hfree) line value
  | send bytes => exact (goesOn_send hd).attended (run_onward_ne_stopped hd)
  | hangUp => exact (goesOn_hangUp hd).attended (run_onward_ne_stopped hd)

theorem isHeld_of_plain {p : Bench} (h : p.Plain) : p.isHeld = false := by
  simp [isHeld, server?, h.instrument]

theorem plain_follow (d : Bench) {p : Bench} (hp : p.Plain) (e : Event) : (follow d p e).Plain := by
  unfold follow
  split
  · rename_i hreaches
    cases e with
    | step => exact plain_step hp
    | raise line value =>
      dsimp only [next]
      rw [isHeld_of_plain hp]
      exact plain_raise hp line value
    | send bytes => cases hreaches
    | hangUp => cases hreaches
  · exact hp

/-- **One event** leaves a bench that goes on like the one without an instrument exactly if it does not
disturb the core. -/
theorem mirrors_next {d p : Bench} {e : Event} {rest : Bytes} (hd : d.Attended (e.sent ++ rest))
    (hp : p.Plain) (h : Mirrors d p) :
    Mirrors (d.next e) (follow d p e) ↔ d.disturbs e = false := by
  cases e with
  | step =>
    cases hheld : d.isHeld with
    | true =>
      have hstep : d.step = d := if_pos hheld
      simp [next, follow, reaches, disturbs, hheld, hstep, h]
    | false =>
      have hfollow : follow d p .step = p.step := if_pos (by simp [reaches, hheld])
      rw [hfollow]
      exact mirrors_step hd hp h hheld
  | raise line value =>
    refine iff_of_true ?_ rfl
    cases hheld : d.isHeld with
    | true => simpa [next, follow, reaches, hheld] using h
    | false =>
      obtain ⟨s, hs, -⟩ := hd.server
      have hfollow : follow d p (.raise line value) = p.act (·.raise line value) := by
        rw [follow, if_pos (by simp [reaches, hheld]), next_raise_of_free (isHeld_of_plain hp)]
      rw [next_raise_of_free hheld, hfollow]
      exact mirrors_raise ⟨s, hs⟩ hp h hheld line value
  | send bytes => exact iff_of_true ((goesOn_send hd).mirrors h) rfl
  | hangUp => exact iff_of_true ((goesOn_hangUp hd).mirrors h) rfl

end Bench

end AvrSim
