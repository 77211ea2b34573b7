import AvrSim.Proofs.Gdb.Breakpoints
import Mathlib.Data.List.TakeWhile

/-!
# What waits for the server's turn

A server stops the core in its turn after an instruction. What should stop the core may come up at other
times: an access is watched while the instruction is executed, and bytes of the client arrive whenever
they do. It then waits for the turn, and there is none while the core sleeps or once it has ended.

* `Gdb.Server.Halts`: how a turn ends in which the core is stopped.
* `Gdb.Server.Keeps`: what waits for the turn stays.
* `Bench.expects_next`, `Bench.expects_after`: it stays through an event, and through a schedule, in
  which there is no turn.
-/

namespace AvrSim

/-- The machine with an instrument connected and no notes. -/
def Machine.instrumented (m : Machine) : Machine := { m.quiet with probed := true }

namespace Gdb.Server

/-- The server with a client, letting the core go. -/
def toward (s : Server) (c : Connection) : Server := { s with connection := some c, held := false }

variable {s : Server} {m : Machine}

/-! ## Stops -/

/-- A turn that stops the core, holds the session and tells the client why. -/
structure Halts (turn : Server × Machine × Option StopReply) (reply : StopReply) : Prop where
  reply : turn.2.2 = some reply
  held : turn.1.held = true
  run : turn.2.1.run = .stopped

theorem halts_stop (hclient : s.connection.isSome) (reply : StopReply) :
    Halts (s.stop m reply) reply := ⟨if_pos hclient, rfl, rfl⟩

theorem attend_of_pending (hclient : s.connection.isSome) {reply : StopReply}
    (hpending : s.pending = some reply) : s.attend m = s.stop m reply := by
  obtain ⟨c, hc⟩ := Option.isSome_iff_exists.mp hclient
  simp only [attend, hc, hpending]

theorem attend_of_trap (hclient : s.connection.isSome) (hpending : s.pending = none)
    (htrap : (m.run = .stopped || s.breakNext || s.stepping) = true) :
    s.attend m = s.stop m .trap := by
  obtain ⟨c, hc⟩ := Option.isSome_iff_exists.mp hclient
  simp only [attend, hc, hpending]
  exact if_pos htrap

/-- Whatever packets come before an interrupt, the server finds it. -/
theorem pollInterrupt_of_mem {c : Connection} (h : interrupt ∈ c.queue) :
    (s.pollInterrupt c m).1 = true ∧ ∃ rest, (s.pollInterrupt c m).2.1 = s.keepQueue rest := by
  unfold pollInterrupt
  dsimp only
  split
  · rename_i rest _
    exact ⟨rfl, rest, rfl⟩
  · rename_i hnone
    have hall := List.dropWhile_eq_nil_iff.mp hnone interrupt h
    simp at hall

theorem halts_of_interrupt {c : Connection} (hc : s.connection = some c)
    (hqueue : interrupt ∈ c.queue) (hpending : s.pending = none)
    (htrap : (m.run = .stopped || s.breakNext || s.stepping) = false) :
    Halts (s.attend m) .interrupted := by
  obtain ⟨hinterrupted, rest, hrest⟩ := pollInterrupt_of_mem (s := s) (m := m) hqueue
  simp only [attend, hc, hpending]
  rw [if_neg (Bool.eq_false_iff.mp htrap)]
  generalize s.pollInterrupt c m = result at hinterrupted hrest
  rw [if_pos hinterrupted, hrest]
  apply halts_stop
  simp [keepQueue, hc]

/-- Only an access that was watched is told as one. -/
theorem attend_ne_watch (hpending : s.pending = none) (kind : WatchKind) (address : UInt16) :
    (s.attend m).2.2 ≠ some (.watch kind address) := by
  have hstop (s : Server) (m : Machine) (number : Nat) :
      (s.stop m (.signal number)).2.2 ≠ some (.watch kind address) := by
    unfold stop
    dsimp only
    split
    · nofun
    · nofun
  unfold attend
  split
  · nofun
  · rw [hpending]
    dsimp only
    split
    · exact hstop s m 5
    · generalize s.pollInterrupt _ m = result
      split
      · exact hstop result.2.1 result.2.2 2
      · split
        · exact hstop result.2.1 result.2.2 5
        · nofun

/-! ## What stays -/

/-- The server keeps its client, the packets that wait, and what it means to stop the core for. -/
structure Keeps (s s' : Server) : Prop where
  held : s'.held = s.held
  breakNext : s'.breakNext = s.breakNext
  stepping : s'.stepping = s.stepping
  pending : ∀ reply, s.pending = some reply → s'.pending = some reply
  queue : ∀ c, s.connection = some c → ∃ c', s'.connection = some c' ∧ c.queue <+: c'.queue

theorem Keeps.refl (s : Server) : Keeps s s := by
  refine ⟨rfl, rfl, rfl, fun _ h => h, ?_⟩
  intro c hc
  exact ⟨c, hc, List.prefix_refl _⟩

theorem Keeps.trans {s s' s'' : Server} (h : Keeps s s') (h' : Keeps s' s'') : Keeps s s'' := by
  refine ⟨h'.held.trans h.held, h'.breakNext.trans h.breakNext, h'.stepping.trans h.stepping, ?_, ?_⟩
  · intro reply hreply
    exact h'.pending reply (h.pending reply hreply)
  · intro c hc
    obtain ⟨c', hc', hqueue⟩ := h.queue c hc
    obtain ⟨c'', hc'', hqueue'⟩ := h'.queue c' hc'
    exact ⟨c'', hc'', hqueue.trans hqueue'⟩

theorem keeps_watch (s : Server) (n : Note) : Keeps s (Bench.watch s n) := by
  have hserver (address : UInt16) (isWrite : Bool) : Keeps s (s.watch address isWrite) := by
    unfold watch
    split
    · rename_i hfree
      refine ⟨rfl, rfl, rfl, ?_, (Keeps.refl s).queue⟩
      intro reply hreply
      simp [hreply] at hfree
    · exact .refl s
  cases n with
  | read address value => exact hserver address false
  | write address value => exact hserver address true
  | line tag value => exact .refl s
  | step state => exact .refl s

theorem keeps_watch_list (s : Server) (notes : List Note) : Keeps s (notes.foldl Bench.watch s) := by
  induction notes generalizing s with
  | nil => exact .refl s
  | cons n notes ih => exact (keeps_watch s n).trans (ih (Bench.watch s n))

theorem keeps_watch_foldl (s : Server) (notes : Array Note) : Keeps s (notes.foldl Bench.watch s) := by
  rw [← Array.foldl_toList]
  exact keeps_watch_list s notes.toList

theorem keeps_receive (s : Server) (bytes : Bytes) : Keeps s (s.receive bytes).1 := by
  unfold receive
  split
  · exact .refl s
  · rename_i c hc
    refine ⟨rfl, rfl, rfl, fun _ h => h, ?_⟩
    intro c' hc'
    obtain rfl : c = c' := Option.some.inj (hc.symm.trans hc')
    exact ⟨_, rfl, List.prefix_append _ _⟩

theorem keeps_hangUp (s : Server) : Keeps s s.hangUp := by
  refine ⟨rfl, rfl, rfl, fun _ h => h, ?_⟩
  intro c hc
  exact ⟨{ c with closed := true }, by simp [hangUp, hc], List.prefix_refl _⟩

end Gdb.Server

namespace Bench

/-! ## Steps with a client -/

/-- A machine under a server that has a client and lets the core go. -/
def free (m : Machine) (s : Gdb.Server) (c : Gdb.Connection) : Bench :=
  ⟨m.instrumented, .server (s.toward c), #[]⟩

/-- A step in which the server stops the core, with the reply that the client gets. -/
structure Stops (b : Bench) (reply : Gdb.StopReply) : Prop where
  reply : b.advance.2 = some reply
  held : b.advance.1.isHeld = true
  run : b.advance.1.machine.run = .stopped

theorem advance_server (m : Machine) (s : Gdb.Server) (seen : Array Note) :
    advance ⟨m, .server s, seen⟩ =
      if m.tick.2 then
        attend ⟨m.tick.1.quiet, .server (m.tick.1.notes.foldl watch s),
          seen ++ m.tick.1.notes.filter isPublic⟩
      else
        (⟨m.tick.1.quiet, .server (m.tick.1.notes.foldl watch s),
          seen ++ m.tick.1.notes.filter isPublic⟩, none) := by
  unfold advance
  dsimp only
  rw [gather_server]

/-- The server has its turn in a step that is taken awake and does not end the run. -/
theorem due_of_advance {m : Machine} {s : Gdb.Server} {seen : Array Note} (hprobed : m.probed = true)
    (hawake : m.run ≠ .sleeping)
    (hends : (advance ⟨m, .server s, seen⟩).1.machine.run.isTerminal = false) : m.tick.2 = true := by
  apply (Machine.tick_snd_iff hprobed).mpr ⟨hawake, _⟩
  cases hdue : m.tick.2 with
  | true => exact ((Machine.tick_snd_iff hprobed).mp hdue).2
  | false =>
    rw [advance_server, hdue] at hends
    exact hends

theorem stops_of_halts {m : Machine} {s : Gdb.Server} {seen : Array Note} {reply : Gdb.StopReply}
    (hdue : m.tick.2 = true)
    (h : Gdb.Server.Halts ((m.tick.1.notes.foldl watch s).attend m.tick.1.quiet) reply) :
    Stops ⟨m, .server s, seen⟩ reply := by
  have hadvance := advance_server m s seen
  rw [if_pos hdue] at hadvance
  refine ⟨?_, ?_, ?_⟩
  · rw [hadvance]
    exact h.reply
  · rw [hadvance]
    exact h.held
  · rw [hadvance]
    exact h.run

theorem advance_of_sleeping {m : Machine} (hsleeping : m.run = .sleeping) (s : Gdb.Server)
    (seen : Array Note) : (advance ⟨m, .server s, seen⟩).2 = none := by
  rw [advance_server, Machine.tick_of_sleeping hsleeping]
  rfl

/-! ## Events without a turn -/

/-- Whether the server has no turn in an event: it is not a step, or the core sleeps, or the run ends or
has ended. -/
def idle (b : Bench) : Event → Bool
  | .step => b.machine.run = .sleeping || b.machine.tick.1.run.isTerminal
  | _ => true

/-- Whether the server has no turn in a schedule. -/
def idles (b : Bench) : List Event → Bool
  | [] => true
  | e :: events => b.idle e && (b.next e).idles events

/-- A bench whose server keeps what waited for the turn of `s`. -/
structure Expects (s : Gdb.Server) (b : Bench) : Prop where
  server : ∃ s', b.instrument = .server s' ∧ s.Keeps s'
  probed : b.machine.probed = true

theorem serve_instrument (m : Machine) {s : Gdb.Server} (hfree : s.held = false) (seen : Array Note) :
    (serve ⟨m, .server s, seen⟩).1.instrument = .server s := by
  rw [serve_of_free (b := ⟨m, .server s, seen⟩) hfree]

theorem keeps_next {m : Machine} {s : Gdb.Server} {seen : Array Note} (hprobed : m.probed = true)
    (hfree : s.held = false) {e : Event} (hidle : idle ⟨m, .server s, seen⟩ e = true) :
    ∃ s', (next ⟨m, .server s, seen⟩ e).instrument = .server s' ∧ s.Keeps s' := by
  cases e with
  | step =>
    -- all that such a step does to the server is to tell it of accesses
    have hkeeps := Gdb.Server.keeps_watch_foldl s m.tick.1.notes
    have hdue : ¬ m.tick.2 = true := by
      rw [Machine.tick_snd_iff hprobed]
      rintro ⟨hawake, hends⟩
      simp [idle, hawake, hends] at hidle
    refine ⟨_, ?_, hkeeps⟩
    show (step ⟨m, .server s, seen⟩).instrument = _
    rw [step_of_free (b := ⟨m, .server s, seen⟩) hfree, advance_server, if_neg hdue]
    exact serve_instrument _ (hkeeps.held.trans hfree) _
  | raise line value =>
    have hnext : next ⟨m, .server s, seen⟩ (.raise line value) =
        gather ⟨m.raise line value, .server s, seen⟩ :=
      next_raise_of_free (b := ⟨m, .server s, seen⟩) hfree line value
    refine ⟨_, ?_, Gdb.Server.keeps_watch_foldl s (m.raise line value).notes⟩
    rw [hnext, gather_server]
  | send bytes =>
    have hkeeps := Gdb.Server.keeps_receive s bytes
    refine ⟨_, ?_, hkeeps⟩
    exact serve_instrument m (hkeeps.held.trans hfree) seen
  | hangUp =>
    have hkeeps := Gdb.Server.keeps_hangUp s
    refine ⟨_, ?_, hkeeps⟩
    exact serve_instrument m (hkeeps.held.trans hfree) seen

theorem expects_next {s : Gdb.Server} {b : Bench} (h : Expects s b) (hfree : s.held = false) {e : Event}
    (hidle : b.idle e = true) : Expects s (b.next e) := by
  obtain ⟨s', hs', hkeeps⟩ := h.server
  refine ⟨?_, (server_next ⟨s', hs'⟩ h.probed e).2⟩
  obtain ⟨m, instrument, seen⟩ := b
  obtain rfl : instrument = .server s' := hs'
  obtain ⟨s'', hs'', hkeeps'⟩ := keeps_next h.probed (hkeeps.held.trans hfree) hidle
  exact ⟨s'', hs'', hkeeps.trans hkeeps'⟩

theorem expects_after {s : Gdb.Server} {b : Bench} (h : Expects s b) (hfree : s.held = false)
    {events : List Event} (hidle : b.idles events = true) : Expects s (b.after events) := by
  induction events generalizing b with
  | nil => exact h
  | cons e events ih =>
    simp only [idles, Bool.and_eq_true] at hidle
    exact ih (expects_next h hfree hidle.1) hidle.2

end Bench

end AvrSim
