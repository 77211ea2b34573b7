import AvrSim.Proofs.Gdb.Watchpoints

/-!
# Interrupts of a client

A client asks for a stop by an interrupt, which waits among its packets until the server looks for it in
its turn. The turn may find another reason to stop the core first; it ends with a stop in any case. But
a core that sleeps gives the server no turn, and the interrupt waits for as long as the core sleeps.

* `Gdb.Server.Reason`: what the server stops the core for if an interrupt waits.
* `Gdb.Server.halts_of_waiting`: a turn in which one waits ends with a stop, for one of the reasons.
* `Bench.interrupt_stops_iff`: the first step that is taken awake and does not end the run stops the
  core, and no step that is taken asleep does.
-/

namespace AvrSim

namespace Gdb.Server

/-- Why a server stops the core in its turn after a step of `m`: a stop was pending, an access of the
step is watched, the core has stopped itself or should stop now, or the client asks for it. -/
inductive Reason (s : Server) (m : Machine) : StopReply → Prop
  | pending {reply : StopReply} (h : s.pending = some reply) : Reason s m reply
  | watched (hnone : s.pending = none) (hit : FirstHit s.points.watchpoints m.accesses) :
      Reason s m hit.reply
  | trap (h : m.tick.1.run = .stopped ∨ s.breakNext = true ∨ s.stepping = true) : Reason s m .trap
  | interrupted (h : interrupt ∈ s.queue) : Reason s m .interrupted

/-- A stop that is pending in the turn was so before the step, or an access of the step is watched. -/
theorem reason_of_pending {s : Server} {m : Machine} {reply : StopReply}
    (hclient : s.connection.isSome)
    (h : (m.tick.1.notes.foldl Bench.watch s).pending = some reply) : s.Reason m reply := by
  cases hpending : s.pending with
  | some earlier =>
    have hkept := (keeps_watch_foldl s m.tick.1.notes).pending earlier hpending
    obtain rfl : earlier = reply := Option.some.inj (hkept.symm.trans h)
    exact .pending hpending
  | none =>
    rw [Bench.pending_watch hclient hpending] at h
    obtain ⟨hit, rfl⟩ := exists_firstHit h
    exact .watched hpending hit

theorem halts_of_waiting {s : Server} {c : Connection} (hc : s.connection = some c)
    (hqueue : interrupt ∈ c.queue) (m : Machine) :
    ∃ reply, Halts ((m.tick.1.notes.foldl Bench.watch s).attend m.tick.1.quiet) reply ∧
      s.Reason m reply := by
  have hclient := Option.isSome_iff_exists.mpr ⟨c, hc⟩
  have hkeeps := keeps_watch_foldl s m.tick.1.notes
  have hreason (reply : StopReply)
      (h : (m.tick.1.notes.foldl Bench.watch s).pending = some reply) : s.Reason m reply :=
    reason_of_pending hclient h
  have hc' := (Bench.watch_foldl m.tick.1.notes s).1.trans hc
  generalize m.tick.1.notes.foldl Bench.watch s = s' at hkeeps hreason hc'
  have hclient' := Option.isSome_iff_exists.mpr ⟨c, hc'⟩
  cases hpending : s'.pending with
  | some reply =>
    refine ⟨reply, ?_, hreason reply hpending⟩
    rw [attend_of_pending hclient' hpending]
    exact halts_stop hclient' reply
  | none =>
    cases htrap : (m.tick.1.run = .stopped || s'.breakNext || s'.stepping) with
    | true =>
      refine ⟨.trap, ?_, ?_⟩
      · rw [attend_of_trap (m := m.tick.1.quiet) hclient' hpending htrap]
        exact halts_stop hclient' .trap
      · rw [hkeeps.breakNext, hkeeps.stepping] at htrap
        apply Reason.trap
        simpa [or_assoc] using htrap
    | false =>
      refine ⟨.interrupted, halts_of_interrupt hc' hqueue hpending htrap, .interrupted ?_⟩
      simpa [queue, hc] using hqueue

end Gdb.Server

namespace Bench

/-- A step that is taken awake and does not end the run honours an interrupt that waits. -/
theorem stops_of_waiting {s : Gdb.Server} {c : Gdb.Connection} (hc : s.connection = some c)
    (hqueue : Gdb.interrupt ∈ c.queue) {m : Machine} {seen : Array Note} (hprobed : m.probed = true)
    (hawake : m.run ≠ .sleeping)
    (hends : (advance ⟨m, .server s, seen⟩).1.machine.run.isTerminal = false) :
    ∃ reply, Stops ⟨m, .server s, seen⟩ reply ∧ s.Reason m reply := by
  obtain ⟨reply, hhalts, hreason⟩ := Gdb.Server.halts_of_waiting hc hqueue m
  exact ⟨reply, stops_of_halts (due_of_advance hprobed hawake hends) hhalts, hreason⟩

/-- **Interrupts of a client.** An interrupt waits through every schedule in which the server has no
turn. The next step that does not end the run then stops the core with one reply exactly if it is taken
awake, and the reply gives a reason that holds. -/
theorem interrupt_stops_iff (m : Machine) (s : Gdb.Server) (c : Gdb.Connection)
    (hqueue : Gdb.interrupt ∈ c.queue) (events : List Event)
    (hidle : (free m s c).idles events = true)
    (hends : ((free m s c).after events).advance.1.machine.run.isTerminal = false) :
    ((∃ reply, ((free m s c).after events).Stops reply) ↔
      ((free m s c).after events).machine.run ≠ .sleeping) ∧
    ∀ reply, ((free m s c).after events).Stops reply →
      ∃ s', ((free m s c).after events).instrument = .server s' ∧
        s'.Reason ((free m s c).after events).machine reply := by
  have hstart : Expects (s.toward c) (free m s c) := ⟨⟨_, rfl, .refl _⟩, rfl⟩
  have hexpects := expects_after hstart rfl hidle
  generalize (free m s c).after events = b at hexpects hends
  -- what the client sent meanwhile stands behind the interrupt in the queue
  obtain ⟨s', hs', hkeeps⟩ := hexpects.server
  obtain ⟨c', hc', hprefix⟩ := hkeeps.queue c rfl
  obtain ⟨m', instrument, seen⟩ := b
  obtain rfl : instrument = .server s' := hs'
  have hqueue' : Gdb.interrupt ∈ c'.queue := hprefix.subset hqueue
  have hawake {reply : Gdb.StopReply} (hstops : Stops ⟨m', .server s', seen⟩ reply) :
      m'.run ≠ .sleeping := by
    intro hsleeping
    have hreply := (advance_of_sleeping hsleeping s' seen).symm.trans hstops.reply
    cases hreply
  refine ⟨⟨?_, ?_⟩, ?_⟩
  · rintro ⟨reply, hstops⟩
    exact hawake hstops
  · intro hawake'
    obtain ⟨reply, hstops, -⟩ := stops_of_waiting hc' hqueue' hexpects.probed hawake' hends
    exact ⟨reply, hstops⟩
  · intro reply hstops
    obtain ⟨reply', hstops', hreason⟩ :=
      stops_of_waiting hc' hqueue' hexpects.probed (hawake hstops) hends
    obtain rfl : reply' = reply := Option.some.inj (hstops'.reply.symm.trans hstops.reply)
    exact ⟨s', rfl, hreason⟩

/-- A client that has sent a packet too early, and then an interrupt. -/
def impatient : Gdb.Connection where
  queue := [[0x67], Gdb.interrupt]

/-- The core sleeps through one step, in which a byte wakes it, and is stopped by the next. -/
theorem dozer_interrupted :
    (free dozer {} impatient).idles [.step] = true ∧
      (∃ reply, ((free dozer {} impatient).after [.step]).Stops reply) ∧
      ((free dozer {} impatient).after [.step]).advance.2 = some .interrupted := by
  have hidle : (free dozer {} impatient).idles [.step] = true := by decide +kernel
  have hends : ((free dozer {} impatient).after [.step]).advance.1.machine.run.isTerminal = false := by
    decide +kernel
  have hawake : ((free dozer {} impatient).after [.step]).machine.run ≠ .sleeping := by decide +kernel
  have hstops := interrupt_stops_iff dozer {} impatient (by decide) [.step] hidle hends
  exact ⟨hidle, hstops.1.mpr hawake, by decide +kernel⟩

/-- A core that nothing wakes sleeps on, and the client waits. -/
theorem sleeper_uninterrupted :
    let b := free { fresh [] with run := .sleeping } {} impatient
    Gdb.interrupt ∈ impatient.queue ∧
      b.advance.1.machine.run = .sleeping ∧ b.advance.2 = none ∧ b.advance.1.isHeld = false ∧
      (b.after [.step, .step, .step]).advance.2 = none := by
  decide +kernel

end Bench

end AvrSim
